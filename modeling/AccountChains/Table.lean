/-!
Contract: finite tables whose entries are kept in the order of their keys.

A table is a list of entries with strictly increasing keys, so two tables with
the same lookups are the same table (`Table.ext`), and listing, counting and
summing are plain list functions of `entries`.

Owns: lookup, insertion, removal, listing from a key on, and one law for each
operation in terms of lookup. Does not own: what is stored.
-/

namespace AccountChains

open Std

universe u v

variable {κ : Type u} {α : Type v}

namespace Entries

/-- The value stored under a key. -/
def find? [Ord κ] (key : κ) : List (κ × α) → Option α
  | [] => none
  | (other, value) :: rest =>
    match compare key other with
    | .lt => none
    | .eq => some value
    | .gt => find? key rest

/-- Store a value under a key, replacing what was there. -/
def insert [Ord κ] (key : κ) (value : α) : List (κ × α) → List (κ × α)
  | [] => [(key, value)]
  | (other, stored) :: rest =>
    match compare key other with
    | .lt => (key, value) :: (other, stored) :: rest
    | .eq => (key, value) :: rest
    | .gt => (other, stored) :: insert key value rest

def erase [Ord κ] (key : κ) : List (κ × α) → List (κ × α)
  | [] => []
  | (other, stored) :: rest =>
    match compare key other with
    | .lt => (other, stored) :: rest
    | .eq => rest
    | .gt => (other, stored) :: erase key rest

def Increasing [Ord κ] (entries : List (κ × α)) : Prop :=
  entries.Pairwise fun first second => compare first.1 second.1 = .lt

section Laws

variable [Ord κ] [TransOrd κ] [LawfulEqOrd κ]

omit [TransOrd κ] [LawfulEqOrd κ] in
theorem mem_insert {key : κ} {value : α} {entries : List (κ × α)} {entry : κ × α}
    (member : entry ∈ insert key value entries) : entry = (key, value) ∨ entry ∈ entries := by
  induction entries with
  | nil => simpa [insert] using member
  | cons head rest inductionHypothesis =>
    obtain ⟨other, stored⟩ := head
    unfold insert at member
    split at member
    · simp only [List.mem_cons] at member ⊢
      exact member
    · simp only [List.mem_cons] at member ⊢
      exact member.elim .inl fun later => .inr (.inr later)
    · simp only [List.mem_cons] at member ⊢
      rcases member with rfl | later
      · exact .inr (.inl rfl)
      · exact (inductionHypothesis later).elim .inl fun old => .inr (.inr old)

omit [TransOrd κ] [LawfulEqOrd κ] in
theorem mem_of_mem_erase {key : κ} {entries : List (κ × α)} {entry : κ × α}
    (member : entry ∈ erase key entries) : entry ∈ entries := by
  induction entries with
  | nil => simp [erase] at member
  | cons head rest inductionHypothesis =>
    obtain ⟨other, stored⟩ := head
    unfold erase at member
    split at member
    · exact member
    · exact List.mem_cons_of_mem _ member
    · simp only [List.mem_cons] at member ⊢
      exact member.imp_right inductionHypothesis

omit [LawfulEqOrd κ] in
theorem Increasing.insert {entries : List (κ × α)} (increasing : Increasing entries)
    (key : κ) (value : α) : Increasing (insert key value entries) := by
  induction entries with
  | nil => simp [Entries.insert, Increasing]
  | cons head rest inductionHypothesis =>
    obtain ⟨other, stored⟩ := head
    obtain ⟨above, tailIncreasing⟩ := List.pairwise_cons.mp increasing
    unfold Entries.insert
    split
    · rename_i below
      refine List.pairwise_cons.mpr ⟨fun entry member => ?_, increasing⟩
      rcases List.mem_cons.mp member with rfl | later
      · exact below
      · exact TransCmp.lt_trans below (above entry later)
    · rename_i same
      refine List.pairwise_cons.mpr ⟨fun entry member => ?_, tailIncreasing⟩
      exact TransCmp.lt_of_eq_of_lt same (above entry member)
    · rename_i beyond
      refine List.pairwise_cons.mpr ⟨fun entry member => ?_, inductionHypothesis tailIncreasing⟩
      rcases mem_insert member with rfl | old
      · exact OrientedCmp.lt_of_gt beyond
      · exact above entry old

omit [TransOrd κ] [LawfulEqOrd κ] in
theorem Increasing.erase {entries : List (κ × α)} (increasing : Increasing entries) (key : κ) :
    Increasing (erase key entries) := by
  induction entries with
  | nil => simp [Entries.erase, Increasing]
  | cons head rest inductionHypothesis =>
    obtain ⟨other, stored⟩ := head
    obtain ⟨above, tailIncreasing⟩ := List.pairwise_cons.mp increasing
    unfold Entries.erase
    split
    · exact increasing
    · exact tailIncreasing
    · exact List.pairwise_cons.mpr
        ⟨fun entry member => above entry (mem_of_mem_erase member),
          inductionHypothesis tailIncreasing⟩

omit [TransOrd κ] [LawfulEqOrd κ] in
/-- A key below all keys of the entries has no value. -/
theorem find?_eq_none_of_below {key : κ} {entries : List (κ × α)}
    (below : ∀ entry ∈ entries, compare key entry.1 = .lt) : find? key entries = none := by
  cases entries with
  | nil => rfl
  | cons head rest =>
    obtain ⟨other, stored⟩ := head
    have first := below (other, stored) (List.mem_cons_self ..)
    simp only at first
    simp [find?, first]

theorem find?_insert (key probe : κ) (value : α) (entries : List (κ × α)) :
    find? probe (insert key value entries)
      = if compare probe key = .eq then some value else find? probe entries := by
  induction entries with
  | nil =>
    simp only [insert, find?]
    cases compare probe key <;> simp
  | cons head rest inductionHypothesis =>
    obtain ⟨other, stored⟩ := head
    unfold insert
    cases keyOrder : compare key other with
    | lt =>
      cases probeOrder : compare probe key with
      | lt => simp [find?, probeOrder, TransCmp.lt_trans probeOrder keyOrder]
      | eq => simp [find?, probeOrder]
      | gt => simp [find?, probeOrder]
    | eq =>
      obtain rfl := LawfulEqOrd.eq_of_compare keyOrder
      cases probeOrder : compare probe key <;> simp [find?, probeOrder]
    | gt =>
      simp only [find?]
      cases probeOrder : compare probe other with
      | lt =>
        have different : compare probe key ≠ .eq := by
          intro same
          obtain rfl := LawfulEqOrd.eq_of_compare same
          simp [probeOrder] at keyOrder
        simp [different]
      | eq =>
        have different : compare probe key ≠ .eq := by
          intro same
          obtain rfl := LawfulEqOrd.eq_of_compare same
          simp [probeOrder] at keyOrder
        simp [different]
      | gt => simp [inductionHypothesis]

theorem find?_erase {entries : List (κ × α)} (increasing : Increasing entries) (key probe : κ) :
    find? probe (erase key entries)
      = if compare probe key = .eq then none else find? probe entries := by
  induction entries with
  | nil => simp [erase, find?]
  | cons head rest inductionHypothesis =>
    obtain ⟨other, stored⟩ := head
    obtain ⟨above, tailIncreasing⟩ := List.pairwise_cons.mp increasing
    unfold erase
    cases keyOrder : compare key other with
    | lt =>
      by_cases same : compare probe key = .eq
      · obtain rfl := LawfulEqOrd.eq_of_compare same
        simp [find?, keyOrder]
      · simp [same]
    | eq =>
      obtain rfl := LawfulEqOrd.eq_of_compare keyOrder
      cases probeOrder : compare probe key with
      | lt =>
        have absent : find? probe rest = none :=
          find?_eq_none_of_below fun entry member =>
            TransCmp.lt_trans probeOrder (above entry member)
        simp [find?, probeOrder, absent]
      | eq =>
        have absent : find? probe rest = none :=
          find?_eq_none_of_below fun entry member =>
            TransCmp.lt_of_eq_of_lt probeOrder (above entry member)
        simp [absent]
      | gt => simp [find?, probeOrder]
    | gt =>
      simp only [find?, inductionHypothesis tailIncreasing]
      cases probeOrder : compare probe other with
      | gt => rfl
      | lt =>
        have different : compare probe key ≠ .eq := by
          intro same
          obtain rfl := LawfulEqOrd.eq_of_compare same
          simp [probeOrder] at keyOrder
        simp [different]
      | eq =>
        have different : compare probe key ≠ .eq := by
          intro same
          obtain rfl := LawfulEqOrd.eq_of_compare same
          simp [probeOrder] at keyOrder
        simp [different]

theorem mem_iff_find? {entries : List (κ × α)} (increasing : Increasing entries)
    (key : κ) (value : α) : (key, value) ∈ entries ↔ find? key entries = some value := by
  induction entries with
  | nil => simp [find?]
  | cons head rest inductionHypothesis =>
    obtain ⟨other, stored⟩ := head
    obtain ⟨above, tailIncreasing⟩ := List.pairwise_cons.mp increasing
    simp only [List.mem_cons, Prod.mk.injEq, find?]
    cases keyOrder : compare key other with
    | lt =>
      constructor
      · rintro (⟨rfl, rfl⟩ | later)
        · simp at keyOrder
        · have := TransCmp.lt_trans keyOrder (above _ later)
          simp at this
      · simp
    | eq =>
      obtain rfl := LawfulEqOrd.eq_of_compare keyOrder
      constructor
      · rintro (⟨-, rfl⟩ | later)
        · rfl
        · have := above _ later
          simp at this
      · intro found
        exact .inl ⟨rfl, (Option.some.inj found).symm⟩
    | gt =>
      rw [inductionHypothesis tailIncreasing]
      constructor
      · rintro (⟨rfl, rfl⟩ | later)
        · simp at keyOrder
        · exact later
      · exact .inr

section Scanning

variable {entries : List (κ × α)} {start : κ} {accepts : κ → Bool}
  (interval : ∀ first second, compare first second = .lt → compare first start ≠ .lt →
    accepts second → accepts first)

include interval

omit [TransOrd κ] [LawfulEqOrd κ] in
/-- Above the start, what the test accepts comes before what it refuses. -/
theorem takeWhile_eq_filter (increasing : Increasing entries)
    (beyond : ∀ entry ∈ entries, compare entry.1 start ≠ .lt) :
    (entries.takeWhile fun entry => accepts entry.1)
      = entries.filter fun entry => accepts entry.1 := by
  induction entries with
  | nil => rfl
  | cons entry rest inductionHypothesis =>
    obtain ⟨above, tailIncreasing⟩ := List.pairwise_cons.mp increasing
    simp only [List.takeWhile_cons, List.filter_cons]
    by_cases accepted : accepts entry.1
    · rw [if_pos accepted, if_pos accepted, inductionHypothesis tailIncreasing
        fun later member => beyond later (List.mem_cons_of_mem _ member)]
    · rw [if_neg accepted, if_neg accepted]
      refine (List.filter_eq_nil_iff.mpr fun later member laterAccepted => ?_).symm
      exact accepted (interval _ _ (above later member) (beyond entry List.mem_cons_self)
        laterAccepted)

omit [LawfulEqOrd κ] in
/-- Skipping what is below the start and stopping at the first key that the test refuses misses
nothing, if the accepted keys are an interval from the start on. -/
theorem scan_eq_filter (increasing : Increasing entries)
    (above : ∀ key, accepts key → compare key start ≠ .lt) :
    ((entries.dropWhile fun entry => (compare entry.1 start).isLT).takeWhile
        fun entry => accepts entry.1)
      = entries.filter fun entry => accepts entry.1 := by
  induction entries with
  | nil => rfl
  | cons entry rest inductionHypothesis =>
    obtain ⟨larger, tailIncreasing⟩ := List.pairwise_cons.mp increasing
    simp only [List.dropWhile_cons, Ordering.isLT_iff_eq_lt]
    by_cases below : compare entry.1 start = .lt
    · have refused : ¬ accepts entry.1 := fun accepted => above _ accepted below
      simp only [if_pos below, List.filter_cons, if_neg refused]
      exact inductionHypothesis tailIncreasing
    · rw [if_neg below]
      refine takeWhile_eq_filter interval increasing fun later member => ?_
      rcases List.mem_cons.mp member with rfl | inRest
      · exact below
      · exact fun isBelow => below (TransCmp.lt_trans (larger later inRest) isBelow)

end Scanning

theorem ext {left right : List (κ × α)} (leftIncreasing : Increasing left)
    (rightIncreasing : Increasing right)
    (same : ∀ key, find? key left = find? key right) : left = right := by
  induction left generalizing right with
  | nil =>
    cases right with
    | nil => rfl
    | cons head rest =>
      obtain ⟨key, value⟩ := head
      have := same key
      simp [find?] at this
  | cons head rest inductionHypothesis =>
    obtain ⟨key, value⟩ := head
    obtain ⟨above, tailIncreasing⟩ := List.pairwise_cons.mp leftIncreasing
    cases right with
    | nil =>
      have := same key
      simp [find?] at this
    | cons other others =>
      obtain ⟨otherKey, otherValue⟩ := other
      obtain ⟨otherAbove, otherTail⟩ := List.pairwise_cons.mp rightIncreasing
      have keysAgree : key = otherKey := by
        cases keyOrder : compare key otherKey with
        | eq => exact LawfulEqOrd.eq_of_compare keyOrder
        | lt =>
          have := same key
          simp [find?, keyOrder] at this
        | gt =>
          have reversed := OrientedCmp.lt_of_gt keyOrder
          have := same otherKey
          simp [find?, reversed] at this
      subst keysAgree
      have valuesAgree : value = otherValue := by
        have := same key
        simpa [find?] using this
      subst valuesAgree
      congr 1
      apply inductionHypothesis tailIncreasing otherTail
      intro probe
      have agreed := same probe
      simp only [find?] at agreed
      cases probeOrder : compare probe key with
      | gt => simpa [probeOrder] using agreed
      | lt =>
        rw [find?_eq_none_of_below fun entry member =>
            TransCmp.lt_trans probeOrder (above entry member),
          find?_eq_none_of_below fun entry member =>
            TransCmp.lt_trans probeOrder (otherAbove entry member)]
      | eq =>
        rw [find?_eq_none_of_below fun entry member =>
            TransCmp.lt_of_eq_of_lt probeOrder (above entry member),
          find?_eq_none_of_below fun entry member =>
            TransCmp.lt_of_eq_of_lt probeOrder (otherAbove entry member)]

end Laws

end Entries

/-- A finite map from keys to values, in key order. -/
structure Table (κ : Type u) (α : Type v) [Ord κ] [TransOrd κ] [LawfulEqOrd κ] where
  entries : List (κ × α)
  increasing : Entries.Increasing entries

namespace Table

variable [Ord κ] [TransOrd κ] [LawfulEqOrd κ]

def empty : Table κ α := ⟨[], List.Pairwise.nil⟩

instance : Inhabited (Table κ α) := ⟨empty⟩

def get? (table : Table κ α) (key : κ) : Option α := Entries.find? key table.entries

def contains (table : Table κ α) (key : κ) : Bool := (table.get? key).isSome

def insert (table : Table κ α) (key : κ) (value : α) : Table κ α :=
  ⟨Entries.insert key value table.entries, table.increasing.insert key value⟩

def erase (table : Table κ α) (key : κ) : Table κ α :=
  ⟨Entries.erase key table.entries, table.increasing.erase key⟩

def size (table : Table κ α) : Nat := table.entries.length

/-- The entries whose key the given test accepts, in key order. -/
def filter (table : Table κ α) (accepts : κ → Bool) : List (κ × α) :=
  table.entries.filter fun entry => accepts entry.1

/-- The entries from a key on, in key order, up to the first whose key the given test refuses. -/
def scan (table : Table κ α) (start : κ) (accepts : κ → Bool) : List (κ × α) :=
  (table.entries.dropWhile fun entry => (compare entry.1 start).isLT).takeWhile
    fun entry => accepts entry.1

/-- The table of those entries that the given test accepts. -/
def restrict (table : Table κ α) (accepts : κ → α → Bool) : Table κ α :=
  ⟨table.entries.filter fun entry => accepts entry.1 entry.2,
    table.increasing.filter _⟩

@[simp] theorem get?_empty (key : κ) : (empty : Table κ α).get? key = none := rfl

theorem get?_insert (table : Table κ α) (key probe : κ) (value : α) [DecidableEq κ] :
    (table.insert key value).get? probe = if probe = key then some value else table.get? probe := by
  unfold get? insert
  rw [Entries.find?_insert]
  by_cases same : probe = key <;> simp [same]

theorem get?_erase (table : Table κ α) (key probe : κ) [DecidableEq κ] :
    (table.erase key).get? probe = if probe = key then none else table.get? probe := by
  unfold get? erase
  rw [Entries.find?_erase table.increasing]
  by_cases same : probe = key <;> simp [same]

theorem mem_entries_iff (table : Table κ α) (key : κ) (value : α) :
    (key, value) ∈ table.entries ↔ table.get? key = some value :=
  Entries.mem_iff_find? table.increasing key value

/-- A scan finds all that the test accepts, if the accepted keys are an interval from the start
on. -/
theorem scan_eq_filter (table : Table κ α) {start : κ} {accepts : κ → Bool}
    (above : ∀ key, accepts key → compare key start ≠ .lt)
    (interval : ∀ first second, compare first second = .lt → compare first start ≠ .lt →
      accepts second → accepts first) : table.scan start accepts = table.filter accepts :=
  Entries.scan_eq_filter interval table.increasing above

theorem get?_restrict (table : Table κ α) (accepts : κ → α → Bool) (key : κ) :
    (table.restrict accepts).get? key = (table.get? key).filter (accepts key) := by
  apply Option.ext
  intro value
  rw [← mem_entries_iff, Option.filter_eq_some_iff, ← mem_entries_iff]
  simp [restrict]

/-- Tables with the same lookups are the same table. -/
@[ext] theorem ext {left right : Table κ α} (same : ∀ key, left.get? key = right.get? key) :
    left = right := by
  obtain ⟨leftEntries, leftIncreasing⟩ := left
  obtain ⟨rightEntries, rightIncreasing⟩ := right
  have := Entries.ext leftIncreasing rightIncreasing same
  subst this
  rfl

end Table

end AccountChains
