import Mathlib.Data.BitVec
import Mathlib.Tactic.LinearCombination
import Mathlib.Tactic.Ring
import AccountChains.Amount

/-!
Contract: amounts as natural numbers, and as residues.

An operation that does not wrap is the operation of natural numbers. A sum that
may wrap is kept as a residue: taking a part away and putting another in its
place gives the residue of the new sum, whatever wraps in between.
-/

namespace AccountChains.Amount

@[simp] theorem toNat_zero : zero.toNat = 0 := rfl

theorem lt_iff_toNat_lt (left right : Amount) : left < right ↔ left.toNat < right.toNat := Iff.rfl

/-- A sum that fits does not wrap. -/
theorem toNat_wrappingAdd_of_lt {left right : Amount} (fits : left.toNat + right.toNat < size) :
    (left.wrappingAdd right).toNat = left.toNat + right.toNat := by
  rw [toNat_wrappingAdd, Nat.mod_eq_of_lt fits]

/-- A running sum that fits at its end never wraps on the way. -/
theorem toNat_foldl_wrappingAdd {α : Type} (amount : α → Amount) (entries : List α)
    (start : Amount)
    (fits : start.toNat + (entries.map fun entry => (amount entry).toNat).sum < size) :
    (entries.foldl (fun sum entry => sum.wrappingAdd (amount entry)) start).toNat
      = start.toNat + (entries.map fun entry => (amount entry).toNat).sum := by
  induction entries generalizing start with
  | nil => rfl
  | cons head rest inductionHypothesis =>
      rw [List.map_cons, List.sum_cons] at fits
      have first : start.toNat + (amount head).toNat < size := by omega
      have added := toNat_wrappingAdd_of_lt first
      rw [List.foldl_cons, inductionHypothesis _ (by omega), added, List.map_cons, List.sum_cons,
        Nat.add_assoc]

theorem toNat_ofNat_of_lt {number : Nat} (fits : number < size) :
    (ofNat number).toNat = number := by
  unfold ofNat toNat
  rw [BitVec.toNat_ofNat]
  exact Nat.mod_eq_of_lt fits

@[simp] theorem wrappingSub_zero (amount : Amount) : amount.wrappingSub zero = amount := by
  simp [wrappingSub, zero]

@[simp] theorem wrappingAdd_zero (amount : Amount) : amount.wrappingAdd zero = amount := by
  simp [wrappingAdd, zero]

theorem wrappingSub_eq_zero_iff (left right : Amount) :
    left.wrappingSub right = zero ↔ left = right := by
  cases left
  cases right
  simp only [wrappingSub, zero, mk.injEq]
  exact sub_eq_zero

theorem not_lt_zero (amount : Amount) : ¬ amount < zero := by
  rw [lt_iff_toNat_lt, toNat_zero]
  omega

theorem wrappingSub_wrappingAdd_cancel (amount moved : Amount) :
    (amount.wrappingSub moved).wrappingAdd moved = amount := by
  simp [wrappingAdd, wrappingSub]

/-- Taking the whole away and giving the rest back takes only the difference. -/
theorem wrappingSub_wrappingAdd_rest (weight whole rest : Amount) :
    (weight.wrappingSub whole).wrappingAdd rest = weight.wrappingSub (whole.wrappingSub rest) := by
  simp only [wrappingAdd, wrappingSub, mk.injEq]
  ring

/-- Taking the whole away and giving back the whole and more gives only what is more. -/
theorem wrappingSub_wrappingAdd_more (weight whole more : Amount) :
    (weight.wrappingSub whole).wrappingAdd (whole.wrappingAdd more) = weight.wrappingAdd more := by
  simp only [wrappingAdd, wrappingSub, mk.injEq]
  ring

/-- When a part of a sum is replaced, so is its residue. -/
theorem ofNat_replace {before after lost gained : Nat}
    (replaced : after + lost = before + gained) :
    ((ofNat before).wrappingSub (ofNat lost)).wrappingAdd (ofNat gained) = ofNat after := by
  have residues := congrArg (BitVec.ofNat 128) replaced
  simp only [BitVec.ofNat_add] at residues
  simp only [ofNat, wrappingAdd, wrappingSub, mk.injEq]
  linear_combination -residues

end AccountChains.Amount
