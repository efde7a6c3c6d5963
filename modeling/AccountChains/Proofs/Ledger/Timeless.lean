import AccountChains.Proofs.Ledger.Transport

/-!
Contract: ledgers up to the times at which blocks were taken in.

Two coherent ledgers with the same blocks, up to these times, have the same tables,
up to the times in the sidebands and in the account records.

Owns: `Tables.timeless` and when it is the same for two ledgers. Does not own: how
ledgers come to have the same blocks.
-/

namespace AccountChains

open BlockTable

/-- A record of an account without the time of its last block. -/
def AccountRecord.timeless (record : AccountRecord) : AccountRecord :=
  { record with modified := .zero }

/-- The tables without the times at which blocks were taken in. -/
def Tables.timeless (tables : Tables) : Tables :=
  { tables with
    accounts := tables.accounts.mapValues AccountRecord.timeless
    blocks := tables.blocks.mapValues StoredBlock.timeless }

namespace BlockTable.Within

variable {left right : BlockTable} {hash : BlockHash} {holds : StoredBlock → Prop}

/-- What does not depend on times holds of the block in the other table. -/
theorem exists_of (within : Within left right)
    (timeless : ∀ {first second : StoredBlock}, first.Alike second → holds second → holds first)
    (found : ∃ stored, left.get? hash = some stored ∧ holds stored) :
    ∃ stored, right.get? hash = some stored ∧ holds stored := by
  obtain ⟨stored, here, property⟩ := found
  obtain ⟨other, there, alike⟩ := within here
  exact ⟨other, there, timeless alike property⟩

theorem exists_iff (there : Within left right) (back : Within right left)
    (timeless : ∀ {first second : StoredBlock}, first.Alike second → holds second → holds first) :
    (∃ stored, left.get? hash = some stored ∧ holds stored) ↔
      ∃ stored, right.get? hash = some stored ∧ holds stored :=
  ⟨there.exists_of timeless, back.exists_of timeless⟩

theorem timeless_eq (there : Within left right) (back : Within right left) :
    left.mapValues StoredBlock.timeless = right.mapValues StoredBlock.timeless := by
  ext1 hash
  ext1 timeless
  simp only [Table.get?_mapValues, Option.map_eq_some_iff]
  exact there.exists_iff back fun alike same => (Eq.trans alike same)

end BlockTable.Within

namespace Tables.Coherent

variable {constants : LedgerConstants} {left right : Tables} {account : Account}
  {record : AccountRecord}
  (leftCoherent : Coherent constants left) (rightCoherent : Coherent constants right)
  (sound : constants.Sound) (there : Within left.blocks right.blocks)

include leftCoherent rightCoherent there

theorem successors_eq (back : Within right.blocks left.blocks) :
    left.successors = right.successors := by
  ext1 previous
  ext1 hash
  rw [leftCoherent.linked, rightCoherent.linked]
  refine and_congr_right fun _ => there.exists_iff back fun alike same => ?_
  rw [alike.block_eq, same]

include sound

theorem timeless_account (sameSuccessors : left.successors = right.successors)
    (found : left.accounts.get? account = some record) :
    ∃ other, right.accounts.get? account = some other ∧ other.timeless = record.timeless := by
  obtain ⟨head, leftRecord⟩ := leftCoherent.recorded found
  obtain ⟨otherHead, otherHeadFound, alike⟩ := there leftRecord.found
  obtain ⟨other, headBelongs⟩ := rightCoherent.belongs otherHeadFound
  have otherFound := headBelongs.found
  rw [alike.account_eq, leftRecord.account] at otherFound
  obtain ⟨described, rightRecord⟩ := rightCoherent.recorded otherFound
  have sameHash : other.head = record.head :=
    headBelongs.last (sameSuccessors ▸ leftRecord.last)
  have sameHead : described = otherHead := by
    have headFound := rightRecord.found
    rw [sameHash, otherHeadFound] at headFound
    exact (Option.some.inj headFound).symm
  subst sameHead
  have sameOpening : other.openBlock = record.openBlock := by
    obtain ⟨first, firstFound, owner, isFirst⟩ := leftRecord.opening
    obtain ⟨otherFirst, otherFirstFound, firstAlike⟩ := there firstFound
    obtain ⟨third, firstBelongs⟩ := rightCoherent.belongs otherFirstFound
    have thirdFound := firstBelongs.found
    rw [firstAlike.account_eq, owner, otherFound] at thirdFound
    obtain rfl := Option.some.inj thirdFound
    exact firstBelongs.first (firstAlike.block_eq ▸ isFirst)
  have sameNaming : other.representativeBlock = record.representativeBlock := by
    have named := rightRecord.representative
    rw [sameHash] at named
    exact named.unique (Ledger.namedBy_agrees leftCoherent rightCoherent sound
      (Within.agrees there (Within.refl _)) leftRecord.representative otherHeadFound).1
  refine ⟨other, otherFound, ?_⟩
  simp only [AccountRecord.timeless, AccountRecord.mk.injEq, true_and]
  refine ⟨sameHash, sameNaming, sameOpening, ?_, ?_, ?_⟩
  · rw [rightRecord.balance, leftRecord.balance, alike.balance_eq]
  · rw [rightRecord.blockCount, leftRecord.blockCount, alike.height_eq]
  · rw [rightRecord.epoch, leftRecord.epoch, alike.details_eq]

theorem waits_within (back : Within right.blocks left.blocks) {key : ReceivableKey}
    {receivable : Receivable} (waits : Waits constants.genesis.hash left.blocks key receivable) :
    Waits constants.genesis.hash right.blocks key receivable := by
  obtain ⟨send, found, sends, unreceived, describes⟩ := waits
  obtain ⟨other, otherFound, alike⟩ := there found
  refine ⟨other, otherFound, alike.transfer_eq.trans sends, ?_, ?_⟩
  · intro hash stored storedFound notGenesis receives
    obtain ⟨earlier, earlierFound, earlierAlike⟩ := back storedFound
    exact unreceived hash earlier earlierFound notGenesis
      (earlierAlike.transfer_eq.trans receives)
  · rw [describes, alike.account_eq, alike.details_eq,
      Ledger.sentAmount_agrees leftCoherent rightCoherent sound
        (Within.agrees there (Within.refl _)) found otherFound]

omit leftCoherent rightCoherent sound in
theorem representativeOf_within (back : Within right.blocks left.blocks)
    (record : AccountRecord) :
    representativeOf left.blocks record = representativeOf right.blocks record := by
  ext1 representative
  simp only [representativeOf, Option.bind_eq_some_iff]
  exact there.exists_iff back fun alike names => alike.block_eq ▸ names

/-- Coherent ledgers with the same blocks up to time are the same up to time, but for what waits
outside the chains. -/
theorem timeless_eq (back : Within right.blocks left.blocks)
    (sameParked : left.parked = right.parked) (sameVersion : left.version = right.version) :
    left.timeless = right.timeless := by
  have sameBlocks := there.timeless_eq back
  have sameSuccessors := successors_eq leftCoherent rightCoherent there back
  have sameAccounts : left.accounts.mapValues AccountRecord.timeless
      = right.accounts.mapValues AccountRecord.timeless := by
    ext1 account
    ext1 record
    simp only [Table.get?_mapValues, Option.map_eq_some_iff]
    constructor
    · rintro ⟨found, here, rfl⟩
      exact timeless_account leftCoherent rightCoherent sound there sameSuccessors here
    · rintro ⟨found, here, rfl⟩
      exact timeless_account rightCoherent leftCoherent sound back sameSuccessors.symm here
  have sameReceivables : left.receivables = right.receivables := by
    ext1 key
    ext1 receivable
    rw [leftCoherent.waiting, rightCoherent.waiting]
    exact ⟨waits_within leftCoherent rightCoherent sound there back,
      waits_within rightCoherent leftCoherent sound back there⟩
  have sameFrontiers : left.frontiers = right.frontiers := by
    ext1 hash
    ext1 account
    rw [leftCoherent.fronted, rightCoherent.fronted, sameSuccessors]
    refine there.exists_iff back fun alike fronts => ?_
    rwa [alike.account_eq, alike.block_eq]
  have delegated_timeless (tables : Tables) (representative : Account) :
      tables.delegated representative = (tables.accounts.mapValues AccountRecord.timeless).total
        (delegation tables.blocks representative) := by
    rw [Table.total_mapValues]
    rfl
  have sameWeights : left.weights = right.weights := by
    apply weights_ext leftCoherent.tidy rightCoherent.tidy
    intro representative
    rw [leftCoherent.weighed, rightCoherent.weighed, delegated_timeless, delegated_timeless,
      sameAccounts]
    unfold delegation
    simp only [representativeOf_within there back]
  simp only [timeless, Tables.mk.injEq]
  exact ⟨sameAccounts, sameBlocks, sameSuccessors, sameReceivables, sameFrontiers, sameWeights,
    sameParked, sameVersion⟩

end Tables.Coherent

end AccountChains
