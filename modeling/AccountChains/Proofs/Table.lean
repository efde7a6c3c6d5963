import Mathlib.Algebra.GroupWithZero.Nat
import Mathlib.Algebra.Order.BigOperators.Group.List
import Mathlib.Algebra.Order.Group.Nat
import Mathlib.Data.List.Nodup
import Mathlib.Data.List.Perm.Subperm
import AccountChains.Table

/-!
Contract: totals over tables, and tables that differ in one key.

A total adds up one number for each entry. Storing a key replaces what the key
contributed before, removing it takes that away, so a conservation law for a
table is a statement about one key. The size of a table is the total of ones.

Owns: lookups at the changed key and at the others, totals, and the bound on
lists of distinct keys. Does not own: what is stored.
-/

namespace AccountChains

open Std

universe u v

variable {κ : Type u} {α : Type v}

namespace Table

variable [Ord κ] [TransOrd κ] [LawfulEqOrd κ]

section Lookups

variable [DecidableEq κ]

@[simp] theorem get?_insert_self (table : Table κ α) (key : κ) (value : α) :
    (table.insert key value).get? key = some value := by
  rw [get?_insert, if_pos rfl]

theorem get?_insert_of_ne (table : Table κ α) {key probe : κ} (different : probe ≠ key)
    (value : α) : (table.insert key value).get? probe = table.get? probe := by
  rw [get?_insert, if_neg different]

@[simp] theorem get?_erase_self (table : Table κ α) (key : κ) :
    (table.erase key).get? key = none := by
  rw [get?_erase, if_pos rfl]

theorem get?_erase_of_ne (table : Table κ α) {key probe : κ} (different : probe ≠ key) :
    (table.erase key).get? probe = table.get? probe := by
  rw [get?_erase, if_neg different]

/-- What is found after an insertion was inserted, or was there before. -/
theorem of_get?_insert {table : Table κ α} {key probe : κ} {value found : α}
    (isFound : (table.insert key value).get? probe = some found) :
    probe = key ∧ found = value ∨ table.get? probe = some found := by
  rw [get?_insert] at isFound
  split at isFound
  · next same => exact .inl ⟨same, (Option.some.inj isFound).symm⟩
  · exact .inr isFound

/-- What is found after a removal was there before. -/
theorem of_get?_erase {table : Table κ α} {key probe : κ} {found : α}
    (isFound : (table.erase key).get? probe = some found) : table.get? probe = some found := by
  rw [get?_erase] at isFound
  split at isFound
  · simp at isFound
  · exact isFound

theorem erase_of_absent {table : Table κ α} {key : κ} (absent : table.get? key = none) :
    table.erase key = table := by
  ext1 probe
  rw [get?_erase]
  split
  · next same => rw [same, absent]
  · rfl

theorem erase_insert_of_absent {table : Table κ α} {key : κ} (absent : table.get? key = none)
    (value : α) : (table.insert key value).erase key = table := by
  ext1 probe
  rw [get?_erase, get?_insert]
  split
  · next same => rw [same, absent]
  · rfl

/-- A table with one entry. -/
theorem get?_single_iff {key probe : κ} {value found : α} :
    ((empty : Table κ α).insert key value).get? probe = some found ↔
      probe = key ∧ found = value := by
  rw [get?_insert, get?_empty]
  split
  · next same => simp [same, eq_comm]
  · next different => simp [different]

end Lookups

theorem contains_eq_true_iff (table : Table κ α) (key : κ) :
    table.contains key = true ↔ ∃ value, table.get? key = some value :=
  Option.isSome_iff_exists

theorem contains_eq_false_iff (table : Table κ α) (key : κ) :
    table.contains key = false ↔ table.get? key = none := by
  unfold contains
  simp

/-! ## Totals -/

/-- The sum of one number for each entry. -/
def total (weigh : κ → α → Nat) (table : Table κ α) : Nat :=
  (table.entries.map fun entry => weigh entry.1 entry.2).sum

/-- What a key contributes to a total. -/
def share (weigh : κ → α → Nat) (table : Table κ α) (key : κ) : Nat :=
  (table.get? key).elim 0 (weigh key)

section Totals

variable {weigh : κ → α → Nat} {table : Table κ α} {key : κ}

theorem share_of_some {value : α} (found : table.get? key = some value) :
    table.share weigh key = weigh key value := by
  rw [share, found, Option.elim_some]

theorem share_of_none (absent : table.get? key = none) : table.share weigh key = 0 := by
  rw [share, absent, Option.elim_none]

@[simp] theorem total_empty : (empty : Table κ α).total weigh = 0 := rfl

variable (weigh table key) in
theorem total_insert (value : α) :
    (table.insert key value).total weigh + table.share weigh key
      = table.total weigh + weigh key value := by
  obtain ⟨entries, increasing⟩ := table
  unfold total share get? insert
  simp only
  clear increasing
  induction entries with
  | nil => simp [Entries.insert, Entries.find?]
  | cons head rest inductionHypothesis =>
      obtain ⟨other, stored⟩ := head
      unfold Entries.insert Entries.find?
      cases keyOrder : compare key other with
      | lt =>
          simp only [List.map_cons, List.sum_cons, Option.elim_none]
          omega
      | eq =>
          obtain rfl := LawfulEqOrd.eq_of_compare keyOrder
          simp only [List.map_cons, List.sum_cons, Option.elim_some]
          omega
      | gt =>
          simp only [List.map_cons, List.sum_cons]
          omega

theorem total_single (weigh : κ → α → Nat) (key : κ) (value : α) :
    ((empty : Table κ α).insert key value).total weigh = weigh key value := by
  have split := total_insert weigh empty key value
  rwa [share_of_none (get?_empty key), total_empty, Nat.zero_add] at split

variable (weigh table key) in
theorem total_erase :
    (table.erase key).total weigh + table.share weigh key = table.total weigh := by
  obtain ⟨entries, increasing⟩ := table
  unfold total share get? erase
  simp only
  clear increasing
  induction entries with
  | nil => simp [Entries.erase, Entries.find?]
  | cons head rest inductionHypothesis =>
      obtain ⟨other, stored⟩ := head
      unfold Entries.erase Entries.find?
      cases keyOrder : compare key other with
      | lt => simp
      | eq =>
          obtain rfl := LawfulEqOrd.eq_of_compare keyOrder
          simp only [List.map_cons, List.sum_cons, Option.elim_some]
          omega
      | gt =>
          simp only [List.map_cons, List.sum_cons]
          omega

theorem total_congr {other : κ → α → Nat}
    (agree : ∀ key value, table.get? key = some value → weigh key value = other key value) :
    table.total weigh = table.total other := by
  unfold total
  congr 1
  apply List.map_congr_left
  rintro ⟨key, value⟩ member
  exact agree key value ((mem_entries_iff table key value).mp member)

theorem total_le_total {other : κ → α → Nat}
    (below : ∀ key value, table.get? key = some value → weigh key value ≤ other key value) :
    table.total weigh ≤ table.total other := by
  unfold total
  apply List.sum_le_sum
  rintro ⟨key, value⟩ member
  exact below key value ((mem_entries_iff table key value).mp member)

variable (weigh table key) in
theorem share_le_total : table.share weigh key ≤ table.total weigh := by
  have split := total_erase weigh table key
  omega

/-- The listing of some entries adds up to a part of the total. -/
theorem sum_filter (weigh : κ → α → Nat) (table : Table κ α) (accepts : κ → Bool) :
    ((table.filter accepts).map fun entry => weigh entry.1 entry.2).sum
      = table.total fun key value => if accepts key then weigh key value else 0 := by
  unfold filter total
  induction table.entries with
  | nil => rfl
  | cons head rest inductionHypothesis =>
      by_cases accepted : accepts head.1
      · simp only [List.filter_cons, accepted, if_true, List.map_cons, List.sum_cons,
          inductionHypothesis]
      · simp only [List.filter_cons, accepted, Bool.false_eq_true, if_false, List.map_cons,
          List.sum_cons, inductionHypothesis, Nat.zero_add]

end Totals

/-! ## Mapped values -/

section Mapping

variable {β : Type v} (change : α → β) (table : Table κ α)

/-- The table with every value changed. -/
def mapValues : Table κ β :=
  ⟨table.entries.map fun entry => (entry.1, change entry.2), by
    unfold Entries.Increasing
    rw [List.pairwise_map]
    exact table.increasing⟩

@[simp] theorem get?_mapValues (key : κ) :
    (table.mapValues change).get? key = (table.get? key).map change := by
  obtain ⟨entries, increasing⟩ := table
  unfold mapValues get?
  simp only
  clear increasing
  induction entries with
  | nil => rfl
  | cons head rest inductionHypothesis =>
      simp only [List.map_cons, Entries.find?]
      cases compare key head.1 with
      | lt | eq => rfl
      | gt => exact inductionHypothesis

theorem total_mapValues (weigh : κ → β → Nat) : (table.mapValues change).total weigh
    = table.total fun key value => weigh key (change value) := by
  simp only [total, mapValues, List.map_map, Function.comp_def]

end Mapping

/-! ## Sizes -/

theorem size_eq_total (table : Table κ α) : table.size = table.total fun _ _ => 1 := by
  simp [size, total]

/-- Removing a key that is there makes a table smaller by one. -/
theorem size_erase {table : Table κ α} {key : κ} {value : α}
    (found : table.get? key = some value) : (table.erase key).size + 1 = table.size := by
  have split := total_erase (fun _ _ => 1) table key
  rw [share_of_some found] at split
  rw [size_eq_total, size_eq_total]
  exact split

/-- A list of distinct keys that all have values is not longer than the table. -/
theorem length_le_size {table : Table κ α} {keys : List κ} (distinct : keys.Nodup)
    (found : ∀ key ∈ keys, ∃ value, table.get? key = some value) : keys.length ≤ table.size := by
  have included : keys ⊆ table.entries.map Prod.fst := by
    intro key member
    obtain ⟨value, holds⟩ := found key member
    exact List.mem_map.mpr ⟨(key, value), (mem_entries_iff table key value).mpr holds, rfl⟩
  have bounded := (distinct.subperm included).length_le
  rwa [List.length_map] at bounded

end Table

end AccountChains
