import AccountChains.Proofs.Ledger.Coherence

/-!
Contract: how voting weights move.

A change of an account's balance or representative takes weight from one
representative and gives weight to another, who may be the same. Both steps may
wrap in between; the residues of the new sums come out all the same. Without
zeros, a table of weights is known from the weights alone.
-/

namespace AccountChains.Tables

variable {tables left right : Tables} {representative probe : Account} {amount : Amount}

theorem weight_putWeight :
    (putWeight representative amount tables).weight probe
      = if probe = representative then amount else tables.weight probe := by
  unfold putWeight weight
  by_cases isZero : amount = .zero
  · rw [if_pos ((Amount.isZero_iff _).mpr isZero), Table.get?_erase]
    by_cases same : probe = representative <;> simp [same, isZero]
  · rw [if_neg (mt (Amount.isZero_iff _).mp isZero), Table.get?_insert]
    by_cases same : probe = representative <;> simp [same]

theorem Tidy.putWeight (tidy : tables.Tidy) : (putWeight representative amount tables).Tidy := by
  intro probe
  unfold Tables.putWeight
  by_cases isZero : amount = .zero
  · rw [if_pos ((Amount.isZero_iff _).mpr isZero), Table.get?_erase]
    split
    · simp
    · exact tidy probe
  · rw [if_neg (mt (Amount.isZero_iff _).mp isZero), Table.get?_insert]
    split
    · exact fun same => isZero (Option.some.inj same)
    · exact tidy probe

private theorem Tidy.get?_weights (tidy : tables.Tidy) (probe : Account) :
    tables.weights.get? probe
      = if tables.weight probe = .zero then none else some (tables.weight probe) := by
  have notZero := tidy probe
  unfold weight
  cases found : tables.weights.get? probe with
  | none => simp
  | some weight =>
      have : weight ≠ .zero := fun isZero => notZero (found.trans (congrArg some isZero))
      simp [this]

/-- Without zeros, equal weights make equal tables. -/
theorem weights_ext (leftTidy : left.Tidy) (rightTidy : right.Tidy)
    (same : ∀ probe, left.weight probe = right.weight probe) : left.weights = right.weights := by
  ext1 probe
  rw [leftTidy.get?_weights, rightTidy.get?_weights, same]

/-- Take weight from a representative. -/
def lessen (representative : Account) (amount : Amount) (tables : Tables) : Tables :=
  tables.putWeight representative ((tables.weight representative).wrappingSub amount)

/-- Give weight to a representative. -/
def enlarge (representative : Account) (amount : Amount) (tables : Tables) : Tables :=
  tables.putWeight representative ((tables.weight representative).wrappingAdd amount)

/-- Take weight from one representative and give weight to another. -/
def reweigh (lost gained : Option (Account × Amount)) (tables : Tables) : Tables :=
  let lessened := lost.elim tables fun part => tables.lessen part.1 part.2
  gained.elim lessened fun part => lessened.enlarge part.1 part.2

/-- What a representative has of an amount. -/
def portion (part : Option (Account × Amount)) (representative : Account) : Amount :=
  part.elim .zero fun part => if representative = part.1 then part.2 else .zero

theorem weight_lessen : (tables.lessen representative amount).weight probe
    = (tables.weight probe).wrappingSub (portion (some (representative, amount)) probe) := by
  unfold lessen portion
  rw [weight_putWeight]
  by_cases same : probe = representative <;> simp [same]

theorem weight_enlarge : (tables.enlarge representative amount).weight probe
    = (tables.weight probe).wrappingAdd (portion (some (representative, amount)) probe) := by
  unfold enlarge portion
  rw [weight_putWeight]
  by_cases same : probe = representative <;> simp [same]

theorem weight_reweigh (lost gained : Option (Account × Amount)) :
    (tables.reweigh lost gained).weight probe
      = ((tables.weight probe).wrappingSub (portion lost probe)).wrappingAdd
          (portion gained probe) := by
  cases lost <;> cases gained <;>
    simp [reweigh, weight_lessen, weight_enlarge, show portion none probe = .zero from rfl]

theorem Tidy.reweigh (tidy : tables.Tidy) (lost gained : Option (Account × Amount)) :
    (tables.reweigh lost gained).Tidy := by
  have lessened : (lost.elim tables fun part => tables.lessen part.1 part.2).Tidy := by
    cases lost with
    | none => exact tidy
    | some part => exact tidy.putWeight
  cases gained with
  | none => exact lessened
  | some part => exact lessened.putWeight

/-! ## Moving weight that stays with a representative -/

section Staying

variable (tidy : tables.Tidy)

include tidy

theorem reweigh_rest (whole rest : Amount) :
    (tables.reweigh (some (representative, whole)) (some (representative, rest))).weights
      = (tables.lessen representative (whole.wrappingSub rest)).weights := by
  refine weights_ext (tidy.reweigh _ _) tidy.putWeight fun probe => ?_
  rw [weight_reweigh, weight_lessen]
  unfold portion
  by_cases same : probe = representative
  · simp only [Option.elim_some, if_pos same, Amount.wrappingSub_wrappingAdd_rest]
  · simp [same]

theorem reweigh_more (whole more : Amount) :
    (tables.reweigh (some (representative, whole))
        (some (representative, whole.wrappingAdd more))).weights
      = (tables.enlarge representative more).weights := by
  refine weights_ext (tidy.reweigh _ _) tidy.putWeight fun probe => ?_
  rw [weight_reweigh, weight_enlarge]
  unfold portion
  by_cases same : probe = representative
  · simp only [Option.elim_some, if_pos same, Amount.wrappingSub_wrappingAdd_more]
  · simp [same]

theorem reweigh_same (whole : Amount) :
    (tables.reweigh (some (representative, whole)) (some (representative, whole))).weights
      = tables.weights := by
  refine weights_ext (tidy.reweigh _ _) tidy fun probe => ?_
  rw [weight_reweigh, Amount.wrappingSub_wrappingAdd_cancel]

theorem reweigh_zero :
    (tables.reweigh none (some (representative, .zero))).weights = tables.weights := by
  refine weights_ext (tidy.reweigh _ _) tidy fun probe => ?_
  rw [weight_reweigh]
  unfold portion
  by_cases same : probe = representative <;> simp [same]

end Staying

/-- Whom the record of an account gives weight to, and how much. -/
def votes (blocks : BlockTable) (record : AccountRecord) : Account × Amount :=
  ((BlockTable.representativeOf blocks record).getD .zero, record.balance)

theorem votes_of_leads {blocks : BlockTable} {record : AccountRecord}
    (leads : BlockTable.representativeOf blocks record = some representative) :
    votes blocks record = (representative, record.balance) := by
  rw [votes, leads, Option.getD_some]

theorem Recorded.leads {owner : Account} {record : AccountRecord} {head : StoredBlock}
    (recorded : Recorded tables owner record head) :
    ∃ named, BlockTable.representativeOf tables.blocks record = some named := by
  obtain ⟨naming, named, found, names⟩ := recorded.representative.names
  exact ⟨named, by simp [BlockTable.representativeOf, found, names]⟩

/-- An account votes for the representative that its record leads to, and for no other. -/
theorem portion_votes {blocks : BlockTable} {record : AccountRecord} {named : Account}
    (leads : BlockTable.representativeOf blocks record = some named) (owner : Account) :
    (portion (some (votes blocks record)) representative).toNat
      = delegation blocks representative owner record := by
  unfold portion delegation
  rw [votes_of_leads leads, leads]
  by_cases same : representative = named
  · simp [same]
  · simp [same, Ne.symm same]

theorem Recorded.portion_votes {owner : Account} {record : AccountRecord} {head : StoredBlock}
    (recorded : Recorded tables owner record head) :
    (portion (some (votes tables.blocks record)) representative).toNat
      = delegation tables.blocks representative owner record := by
  obtain ⟨named, leads⟩ := recorded.leads
  exact Tables.portion_votes leads owner

/-- Weights that follow a change of what is delegated stay the residues of what is delegated. -/
theorem weight_reweigh_of_moved {before after : Nat} (lost gained : Option (Account × Amount))
    (weighed : tables.weight probe = .ofNat before)
    (moved : after + (portion lost probe).toNat = before + (portion gained probe).toNat) :
    (tables.reweigh lost gained).weight probe = .ofNat after := by
  rw [weight_reweigh, weighed, ← Amount.ofNat_replace moved, Amount.ofNat_toNat,
    Amount.ofNat_toNat]

end AccountChains.Tables
