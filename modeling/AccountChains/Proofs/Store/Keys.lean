import AccountChains.Store.Memory

/-!
Contract: the order of keys, and listings by the first part of a key.

Keys are written most significant byte first in a fixed width, so their byte strings are in
the order of the keys. The keys with a given first part are an interval that begins at that
part with nothing, or with the zero hash, behind it; also where no key lies above them. So
a listing that reads on from there, and stops where the first part changes, leaves nothing
out.

Owns: the order of numerals, identifiers and keys of two parts as byte strings, and
listings as filters. Does not own: the tables of a byte store.
-/

namespace AccountChains

open Std

/-! ## Byte strings -/

namespace Bytes

theorem compare_byte (left right : UInt8) :
    compare left right = compare left.toNat right.toNat := by
  change compareOfLessAndEq left right = compareOfLessAndEq left.toNat right.toNat
  unfold compareOfLessAndEq
  simp only [UInt8.lt_iff_toNat_lt, ← UInt8.toNat_inj]

theorem compare_word {width : Nat} (left right : BitVec width) :
    compare left right = compare left.toNat right.toNat := by
  change compareOfLessAndEq left right = compareOfLessAndEq left.toNat right.toNat
  unfold compareOfLessAndEq
  simp only [BitVec.lt_def, ← BitVec.toNat_inj]

theorem compare_nil_cons (byte : UInt8) (rest : Bytes) : compare [] (byte :: rest) = .lt := rfl

theorem compare_cons (left right : UInt8) (leftRest rightRest : Bytes) :
    compare (left :: leftRest) (right :: rightRest)
      = (compare left right).then (compare leftRest rightRest) :=
  List.compareLex_cons_cons

/-- Behind first parts of one length, the rest decides only if the first parts are the same. -/
theorem compare_append {left right : Bytes} (sameLength : left.length = right.length)
    (leftRest rightRest : Bytes) : compare (left ++ leftRest) (right ++ rightRest)
      = (compare left right).then (compare leftRest rightRest) := by
  induction left generalizing right with
  | nil =>
    obtain rfl := List.length_eq_zero_iff.mp sameLength.symm
    simp
  | cons byte rest inductionHypothesis =>
    cases right with
    | nil => simp at sameLength
    | cons other others =>
      simp only [List.cons_append, compare_cons,
        inductionHypothesis (Nat.succ.inj sameLength), Ordering.then_assoc]

theorem bigEndian_succ (width value : Nat) :
    bigEndian (width + 1) value = bigEndian width (value / 256) ++ [UInt8.ofNat value] := by
  simp [bigEndian, littleEndian]

/-- Numerals compare as the numbers that they write. -/
theorem compare_bigEndian {width left right : Nat} (leftSmall : left < span width)
    (rightSmall : right < span width) :
    compare (bigEndian width left) (bigEndian width right) = compare left right := by
  induction width generalizing left right with
  | zero =>
    simp only [span] at leftSmall rightSmall
    obtain rfl : left = right := by omega
    simp
  | succ width inductionHypothesis =>
    simp only [span] at leftSmall rightSmall
    rw [bigEndian_succ, bigEndian_succ, compare_append (by simp), compare_cons, compare_byte,
      inductionHypothesis (by omega) (by omega), UInt8.toNat_ofNat', UInt8.toNat_ofNat',
      compare_self, Ordering.then_eq]
    -- The high bytes decide unless they agree, and then the low byte does.
    rcases Nat.lt_trichotomy (left / 256) (right / 256) with high | same | high
    · rw [Nat.compare_eq_lt.mpr high, Nat.compare_eq_lt.mpr (show left < right by omega)]
      rfl
    · rw [same, compare_self, Ordering.eq_then]
      rcases Nat.lt_trichotomy (left % 256) (right % 256) with low | same | low
      · rw [Nat.compare_eq_lt.mpr low, Nat.compare_eq_lt.mpr (show left < right by omega)]
      · rw [Nat.compare_eq_eq.mpr same, Nat.compare_eq_eq.mpr (show left = right by omega)]
      · rw [Nat.compare_eq_gt.mpr low, Nat.compare_eq_gt.mpr (show right < left by omega)]
    · rw [Nat.compare_eq_gt.mpr high, Nat.compare_eq_gt.mpr (show right < left by omega)]
      rfl

theorem compare_ofWord (width : Nat) (left right : BitVec (8 * width)) :
    compare (ofWord width left) (ofWord width right) = compare left right := by
  have small (word : BitVec (8 * width)) : word.toNat < span width :=
    span_eq_pow width ▸ word.isLt
  rw [ofWord, ofWord, compare_bigEndian (small left) (small right), compare_word]

/-! ### Strings with a given beginning -/

variable {start first second : Bytes}

/-- Nothing that begins with a string is below it. -/
theorem ge_of_isPrefixOf (begins : start.isPrefixOf second) : compare second start ≠ .lt := by
  obtain ⟨rest, rfl⟩ := List.isPrefixOf_iff_prefix.mp begins
  induction start with
  | nil => cases rest <;> simp
  | cons byte others inductionHypothesis =>
    rw [List.cons_append, compare_cons, compare_self, Ordering.eq_then]
    exact inductionHypothesis (List.isPrefixOf_iff_prefix.mpr (List.prefix_append ..))

/-- What lies between a string and one that begins with it begins with it as well. -/
theorem isPrefixOf_of_between (ordered : compare first second = .lt)
    (beyond : compare first start ≠ .lt) (begins : start.isPrefixOf second) :
    start.isPrefixOf first := by
  induction start generalizing first second with
  | nil => rfl
  | cons byte others inductionHypothesis =>
    cases first with
    | nil => exact absurd (compare_nil_cons byte others) beyond
    | cons head tail =>
      cases second with
      | nil => simp at begins
      | cons next rest =>
        simp only [List.isPrefixOf, Bool.and_eq_true, beq_iff_eq] at begins
        obtain ⟨rfl, begins⟩ := begins
        rw [compare_cons] at ordered beyond
        cases heads : compare head byte with
        | lt => simp [heads] at beyond
        | gt => simp [heads] at ordered
        | eq =>
          obtain rfl := LawfulEqOrd.eq_of_compare heads
          rw [heads, Ordering.eq_then] at ordered beyond
          simpa [List.isPrefixOf] using inductionHypothesis ordered beyond begins

/-- A first part of the same length is the whole beginning. -/
theorem isPrefixOf_append (sameLength : start.length = first.length) (rest : Bytes) :
    start.isPrefixOf (first ++ rest) = (start == first) := by
  rw [Bool.eq_iff_iff, List.isPrefixOf_iff_prefix, beq_iff_eq]
  constructor
  · rintro ⟨behind, same⟩
    exact (List.append_inj same sameLength).1
  · rintro rfl
    exact List.prefix_append start rest

end Bytes

/-! ## Keys -/

namespace Identifier

variable {kind : IdentifierKind}

theorem compare_toBytes (left right : Identifier kind) :
    compare left.toBytes right.toBytes = compare left right :=
  Bytes.compare_ofWord 32 left.value right.value

/-- Bytes with an identifier in front begin with that identifier and with no other. -/
theorem isPrefixOf_toBytes (identifier other : Identifier kind) (rest : Bytes) :
    identifier.toBytes.isPrefixOf (other.toBytes ++ rest) = (other == identifier) := by
  rw [Bytes.isPrefixOf_append (by simp), Bool.eq_iff_iff, beq_iff_eq, beq_iff_eq]
  exact ⟨fun same => (toBytes_injective same).symm, fun same => same ▸ rfl⟩

theorem zero_le (identifier : Identifier kind) : compare identifier .zero ≠ .lt := by
  change compare identifier.value 0 ≠ .lt
  rw [Bytes.compare_word, ne_eq, Nat.compare_eq_lt]
  exact Nat.not_lt_zero _

end Identifier

namespace ReceivableKey

theorem compare_eq (left right : ReceivableKey) : compare left right
    = (compare left.account right.account).then (compare left.hash right.hash) := rfl

theorem compare_toBytes (left right : ReceivableKey) :
    compare left.toBytes right.toBytes = compare left right := by
  rw [toBytes, toBytes, Bytes.compare_append (by simp), Identifier.compare_toBytes,
    Identifier.compare_toBytes, compare_eq]

theorem ofBytes?_toBytes (key : ReceivableKey) : ofBytes? key.toBytes = some key := by
  simp [ofBytes?, toBytes, Bytes.field, List.take_of_length_le]

end ReceivableKey

namespace ParkedKey

theorem compare_eq (left right : ParkedKey) : compare left right
    = (compare left.dependency right.dependency).then (compare left.hash right.hash) := rfl

theorem compare_toBytes (left right : ParkedKey) :
    compare left.toBytes right.toBytes = compare left right := by
  rw [toBytes, toBytes, Bytes.compare_append (by simp), Identifier.compare_toBytes,
    Identifier.compare_toBytes, compare_eq]

theorem ofBytes?_toBytes (key : ParkedKey) : ofBytes? key.toBytes = some key := by
  simp [ofBytes?, toBytes, Bytes.field, List.take_of_length_le]

end ParkedKey

/-! ## Listings -/

section Parts

variable {κ : Type} [Ord κ] {kind : IdentifierKind} {part : κ → Identifier kind}
  {other : κ → BlockHash} {start first second : κ}
  (ordered : ∀ left right, compare left right
    = (compare (part left) (part right)).then (compare (other left) (other right)))

include ordered

/-- Keys with the first part of a start whose second part is zero are not below it. -/
theorem ge_of_part_eq (isZero : other start = .zero) (same : part first = part start) :
    compare first start ≠ .lt := by
  rw [ordered, same, compare_self, Ordering.eq_then, isZero]
  exact Identifier.zero_le _

/-- A key between a start and a key with the same first part has this first part. -/
theorem part_eq_of_between (below : compare first second = .lt)
    (beyond : compare first start ≠ .lt) (same : part second = part start) :
    part first = part start := by
  rw [ordered] at below beyond
  cases parts : compare (part first) (part start) with
  | lt => simp [parts] at beyond
  | eq => exact LawfulEqOrd.eq_of_compare parts
  | gt => simp [same, parts] at below

end Parts

namespace Tables

/-- What waits for an account is what has it in the first part of its key. -/
theorem receivables_eq_filter (tables : Tables) (account : Account) :
    Store.receivables tables account
      = .ok (tables.receivables.filter fun key => key.account == account) := by
  refine congrArg Except.ok (Table.scan_eq_filter _ ?_ ?_)
  · intro key same
    exact ge_of_part_eq ReceivableKey.compare_eq rfl (eq_of_beq same)
  · intro first second below beyond same
    exact beq_iff_eq.mpr
      (part_eq_of_between ReceivableKey.compare_eq below beyond (eq_of_beq same))

/-- What is parked under a block is what has it in the first part of its key. -/
theorem parked_eq_filter (tables : Tables) (dependency : BlockHash) :
    Store.parked tables dependency
      = .ok (tables.parked.filter fun key => key.dependency == dependency) := by
  refine congrArg Except.ok (Table.scan_eq_filter _ ?_ ?_)
  · intro key same
    exact ge_of_part_eq ParkedKey.compare_eq rfl (eq_of_beq same)
  · intro first second below beyond same
    exact beq_iff_eq.mpr (part_eq_of_between ParkedKey.compare_eq below beyond (eq_of_beq same))

end Tables

end AccountChains
