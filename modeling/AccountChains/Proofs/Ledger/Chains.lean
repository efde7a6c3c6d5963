import Mathlib.Logic.Relation
import AccountChains.Proofs.Ledger.Weights

/-!
Contract: the chains of a coherent ledger.

Every stored block but the head of its chain has a successor in the same chain,
one higher. So the head of a chain depends on all its blocks, and the tables of
two coherent ledgers with the same blocks are the same.
-/

namespace AccountChains

open BlockTable

theorem BlockTable.Ranked.lt_of_transGen {genesis hash dependency : BlockHash}
    {blocks : BlockTable} {rank : BlockHash → Nat} (ranked : Ranked genesis blocks rank)
    (depends : Relation.TransGen (DependsOn genesis blocks) hash dependency) :
    rank dependency < rank hash := by
  induction depends with
  | single depends => exact ranked _ _ depends
  | tail _ depends inductionHypothesis => exact (ranked _ _ depends).trans inductionHypothesis

namespace Tables.Coherent

variable {constants : LedgerConstants} {tables : Tables} {hash : BlockHash} {stored : StoredBlock}

section Genesis

variable (coherent : Coherent constants tables) (sound : constants.Sound)

include coherent sound

theorem genesis_first (found : tables.blocks.get? constants.genesis.hash = some stored) :
    stored.block.previous = .zero ∧ stored.sideband.height.toNat = 1 ∧
      stored.block.representative?.isSome ∧ stored.sideband.details = .plain := by
  obtain ⟨now, holds⟩ := coherent.genesis
  obtain rfl := Option.some.inj (holds.symm.trans found)
  exact ⟨sound.previous_eq, rfl, sound.names, rfl⟩

theorem first_block (found : tables.blocks.get? hash = some stored)
    (first : stored.block.previous = .zero) :
    stored.sideband.height.toNat = 1 ∧ stored.block.representative?.isSome := by
  by_cases isGenesis : hash = constants.genesis.hash
  · subst isGenesis
    exact ⟨(genesis_first coherent sound found).2.1, (genesis_first coherent sound found).2.2.1⟩
  · exact (coherent.justified found isGenesis).first first

theorem later_block (found : tables.blocks.get? hash = some stored)
    (later : stored.block.previous ≠ .zero) :
    ∃ before, tables.blocks.get? stored.block.previous = some before ∧ Follows before stored := by
  by_cases isGenesis : hash = constants.genesis.hash
  · subst isGenesis
    exact absurd (genesis_first coherent sound found).1 later
  · exact (coherent.justified found isGenesis).follows later

theorem plain_of_legacy (found : tables.blocks.get? hash = some stored)
    (legacy : stored.block.kind.isLegacy) : stored.sideband.details = .plain := by
  by_cases isGenesis : hash = constants.genesis.hash
  · subst isGenesis
    exact (genesis_first coherent sound found).2.2.2
  · exact (coherent.justified found isGenesis).legacy legacy

theorem height_pos (found : tables.blocks.get? hash = some stored) :
    0 < stored.sideband.height.toNat := by
  by_cases first : stored.block.previous = .zero
  · have height := (first_block coherent sound found first).1
    omega
  · obtain ⟨before, -, follows⟩ := later_block coherent sound found first
    have height := follows.height
    omega

end Genesis

variable (coherent : Coherent constants tables)

include coherent

theorem hash_eq (found : tables.blocks.get? hash = some stored) : stored.hash = hash :=
  (coherent.keyed found).1

/-- An account and something that waits to be received hold no more than there is. -/
theorem balance_add_amount_le {account : Account} {record : AccountRecord} {key : ReceivableKey}
    {receivable : Receivable} (recorded : tables.accounts.get? account = some record)
    (waits : tables.receivables.get? key = some receivable) :
    record.balance.toNat + receivable.amount.toNat ≤ constants.genesisAmount.toNat := by
  have held := Table.share_le_total (fun _ record => record.balance.toNat) tables.accounts account
  have sent := Table.share_le_total (fun _ receivable => receivable.amount.toNat) tables.receivables
    key
  rw [Table.share_of_some recorded] at held
  rw [Table.share_of_some waits] at sent
  have conserved := coherent.conserved
  unfold supply at conserved
  omega

theorem zero_absent : tables.blocks.get? .zero = none := by
  cases found : tables.blocks.get? .zero with
  | none => rfl
  | some stored => exact absurd rfl (coherent.keyed found).2

theorem zero_unfronted : tables.frontiers.get? .zero = none := by
  cases fronted : tables.frontiers.get? .zero with
  | none => rfl
  | some account =>
      obtain ⟨stored, found, -⟩ := (coherent.fronted _ _).mp fronted
      simp [zero_absent coherent] at found

theorem successor_of (found : tables.blocks.get? hash = some stored)
    (later : stored.block.previous ≠ .zero) :
    tables.successors.get? stored.block.previous = some hash :=
  (coherent.linked _ _).mpr ⟨later, stored, found, rfl⟩

/-- What comes after a block is in the same chain, one higher. -/
theorem following (sound : constants.Sound) {record : AccountRecord} {next : BlockHash}
    (found : tables.blocks.get? hash = some stored) (belongs : Belongs tables hash stored record)
    (linked : tables.successors.get? hash = some next) :
    ∃ successor, tables.blocks.get? next = some successor ∧ successor.block.previous = hash ∧
      Follows stored successor ∧ Belongs tables next successor record := by
  obtain ⟨notZero, successor, nextFound, previous⟩ := (coherent.linked hash next).mp linked
  obtain ⟨before, beforeFound, follows⟩ :=
    later_block coherent sound nextFound (previous ▸ notZero)
  rw [previous, found] at beforeFound
  obtain rfl := Option.some.inj beforeFound
  obtain ⟨other, nextBelongs⟩ := coherent.belongs nextFound
  have otherFound := nextBelongs.found
  rw [← follows.account, belongs.found] at otherFound
  obtain rfl := Option.some.inj otherFound
  exact ⟨successor, nextFound, previous, follows, nextBelongs⟩

/-- A block that is not the head of its chain is below it. -/
theorem height_lt (sound : constants.Sound) {record : AccountRecord}
    (found : tables.blocks.get? hash = some stored)
    (belongs : Belongs tables hash stored record) (notHead : record.head ≠ hash) :
    stored.sideband.height.toNat < record.blockCount.toNat := by
  cases linked : tables.successors.get? hash with
  | none => exact absurd (belongs.last linked) notHead
  | some next =>
      obtain ⟨successor, -, -, follows, nextBelongs⟩ :=
        following coherent sound found belongs linked
      have nextHeight := nextBelongs.height
      have oneHigher := follows.height
      omega

/-- The head of a chain depends on every block of the chain. -/
theorem head_depends (sound : constants.Sound) {record : AccountRecord}
    (found : tables.blocks.get? hash = some stored) (belongs : Belongs tables hash stored record) :
    Relation.ReflTransGen (DependsOn constants.genesis.hash tables.blocks) record.head hash := by
  -- Up the chain: the distance to the head shrinks with every successor.
  induction distance : record.blockCount.toNat - stored.sideband.height.toNat
    generalizing hash stored with
  | zero =>
      by_cases isHead : record.head = hash
      · exact isHead ▸ .refl
      · have below := height_lt coherent sound found belongs isHead
        omega
  | succ distance inductionHypothesis =>
      cases linked : tables.successors.get? hash with
      | none => exact belongs.last linked ▸ .refl
      | some next =>
          obtain ⟨successor, nextFound, previous, follows, nextBelongs⟩ :=
            following coherent sound found belongs linked
          have oneHigher := follows.height
          have above := inductionHypothesis nextFound nextBelongs (by omega)
          exact above.tail ⟨successor, nextFound, .inl previous⟩

/-- The genesis block is the head only of the chain that it alone makes up. -/
theorem head_ne_genesis (sound : constants.Sound) {record : AccountRecord}
    (found : tables.blocks.get? hash = some stored) (belongs : Belongs tables hash stored record)
    (notGenesis : hash ≠ constants.genesis.hash) : record.head ≠ constants.genesis.hash := by
  intro isGenesis
  have depends := head_depends coherent sound found belongs
  rw [isGenesis] at depends
  rcases depends.cases_head with same | ⟨next, ⟨block, blockFound, previous | ⟨notItself, -⟩⟩, rest⟩
  · exact notGenesis same.symm
  · -- The genesis block has no predecessor, so the path would go through the zero hash.
    rw [(genesis_first coherent sound blockFound).1] at previous
    subst previous
    rcases rest.cases_head with same | ⟨_, ⟨_, zeroFound, -⟩, -⟩
    · exact (coherent.keyed found).2 same.symm
    · simp [zero_absent coherent] at zeroFound
  · exact notItself rfl

/-! ## The walk to the representative -/

/-- There are as many distinct blocks up to a block as its height says. -/
theorem exists_ancestors (sound : constants.Sound) (found : tables.blocks.get? hash = some stored) :
    ∃ ancestors : List BlockHash, ancestors.length = stored.sideband.height.toNat ∧
      ancestors.Nodup ∧ ∀ ancestor ∈ ancestors, ∃ block, tables.blocks.get? ancestor = some block ∧
        block.sideband.height.toNat ≤ stored.sideband.height.toNat := by
  induction height : stored.sideband.height.toNat using Nat.strongRecOn
    generalizing hash stored with
  | ind height inductionHypothesis =>
      by_cases first : stored.block.previous = .zero
      · have isOne := (first_block coherent sound found first).1
        refine ⟨[hash], by simp; omega, List.nodup_singleton _, ?_⟩
        intro ancestor member
        rw [List.mem_singleton] at member
        exact ⟨stored, member ▸ found, by omega⟩
      · obtain ⟨before, beforeFound, follows⟩ := later_block coherent sound found first
        have oneHigher := follows.height
        obtain ⟨ancestors, length, distinct, below⟩ :=
          inductionHypothesis _ (by omega) beforeFound rfl
        refine ⟨hash :: ancestors, by simp; omega, List.nodup_cons.mpr ⟨?_, distinct⟩, ?_⟩
        · intro member
          obtain ⟨block, blockFound, lower⟩ := below hash member
          obtain rfl := Option.some.inj (found.symm.trans blockFound)
          omega
        · intro ancestor member
          rcases List.mem_cons.mp member with rfl | earlier
          · exact ⟨stored, found, by omega⟩
          · obtain ⟨block, blockFound, lower⟩ := below ancestor earlier
            exact ⟨block, blockFound, by omega⟩

theorem height_le_size (sound : constants.Sound) (found : tables.blocks.get? hash = some stored) :
    stored.sideband.height.toNat ≤ tables.blocks.size := by
  obtain ⟨ancestors, length, distinct, below⟩ := exists_ancestors coherent sound found
  rw [← length]
  apply Table.length_le_size distinct
  intro ancestor member
  obtain ⟨block, blockFound, -⟩ := below ancestor member
  exact ⟨block, blockFound⟩

/-- A walk of as many steps as the block is high finds who names the representative. -/
theorem walk_eq (sound : constants.Sound) (steps : Nat)
    (found : tables.blocks.get? hash = some stored)
    (enough : stored.sideband.height.toNat ≤ steps) :
    ∃ naming, NamedBy tables.blocks hash naming ∧
      Ledger.walkToRepresentative tables steps hash = .ok (some naming) := by
  induction steps generalizing hash stored with
  | zero =>
      have positive := height_pos coherent sound found
      omega
  | succ steps inductionHypothesis =>
      have notZero : hash.isZero = false := by
        simpa using (coherent.keyed found).2
      cases names : stored.block.representative? with
      | some representative =>
          refine ⟨hash, .here found (by simp [names]), ?_⟩
          simp [Ledger.walkToRepresentative, notZero, found, names, AccountChains.stored,
            Store.block?, Except.mapError, bind, Except.bind, pure, Except.pure]
      | none =>
          have later : stored.block.previous ≠ .zero := by
            intro first
            simpa [names] using (first_block coherent sound found first).2
          obtain ⟨before, beforeFound, follows⟩ := later_block coherent sound found later
          have oneHigher := follows.height
          obtain ⟨naming, named, walked⟩ := inductionHypothesis beforeFound (by omega)
          refine ⟨naming, .earlier found names named, ?_⟩
          simp [Ledger.walkToRepresentative, notZero, found, names, walked, AccountChains.stored,
            Store.block?, Except.mapError, bind, Except.bind]

theorem representativeBlock?_eq (sound : constants.Sound)
    (found : tables.blocks.get? hash = some stored) :
    ∃ naming, NamedBy tables.blocks hash naming ∧
      Ledger.representativeBlock? tables hash = .ok (some naming) :=
  walk_eq coherent sound _ found (Nat.le_succ_of_le (height_le_size coherent sound found))

end Tables.Coherent

/-! ## The blocks determine the tables -/

namespace Tables.Coherent

variable {constants : LedgerConstants} {left right : Tables}

private theorem account_of_blocks (leftCoherent : Coherent constants left)
    (rightCoherent : Coherent constants right) (sameBlocks : left.blocks = right.blocks)
    (sameSuccessors : left.successors = right.successors) {account : Account}
    {record : AccountRecord} (found : left.accounts.get? account = some record) :
    right.accounts.get? account = some record := by
  obtain ⟨head, leftRecord⟩ := leftCoherent.recorded found
  obtain ⟨other, headBelongs⟩ := rightCoherent.belongs (sameBlocks ▸ leftRecord.found)
  have otherFound := headBelongs.found
  rw [leftRecord.account] at otherFound
  obtain ⟨otherHead, rightRecord⟩ := rightCoherent.recorded otherFound
  have sameHash : other.head = record.head :=
    headBelongs.last (sameSuccessors ▸ leftRecord.last)
  have sameHead : otherHead = head := by
    have headFound := rightRecord.found
    rw [sameHash, ← sameBlocks, leftRecord.found] at headFound
    exact (Option.some.inj headFound).symm
  have sameOpening : other.openBlock = record.openBlock := by
    obtain ⟨first, firstFound, owner, isFirst⟩ := leftRecord.opening
    obtain ⟨third, firstBelongs⟩ := rightCoherent.belongs (sameBlocks ▸ firstFound)
    have thirdFound := firstBelongs.found
    rw [owner, otherFound] at thirdFound
    obtain rfl := Option.some.inj thirdFound
    exact firstBelongs.first isFirst
  have sameNaming : other.representativeBlock = record.representativeBlock := by
    have named := rightRecord.representative
    rw [sameHash, ← sameBlocks] at named
    exact named.unique leftRecord.representative
  have sameRecord : other = record := by
    subst sameHead
    cases other
    cases record
    simp only [AccountRecord.mk.injEq]
    exact ⟨sameHash, sameNaming, sameOpening, rightRecord.balance.trans leftRecord.balance.symm,
      rightRecord.modified.trans leftRecord.modified.symm,
      rightRecord.blockCount.trans leftRecord.blockCount.symm,
      rightRecord.epoch.trans leftRecord.epoch.symm⟩
  rw [otherFound, sameRecord]

/-- Coherent ledgers with the same blocks are the same, but for what waits outside the chains. -/
theorem eq_of_blocks (leftCoherent : Coherent constants left)
    (rightCoherent : Coherent constants right) (sameBlocks : left.blocks = right.blocks)
    (sameParked : left.parked = right.parked) (sameVersion : left.version = right.version) :
    left = right := by
  have sameSuccessors : left.successors = right.successors := by
    ext1 previous
    ext1 hash
    rw [leftCoherent.linked, rightCoherent.linked, sameBlocks]
  have sameAccounts : left.accounts = right.accounts := by
    ext1 account
    ext1 record
    exact ⟨account_of_blocks leftCoherent rightCoherent sameBlocks sameSuccessors,
      account_of_blocks rightCoherent leftCoherent sameBlocks.symm sameSuccessors.symm⟩
  have sameReceivables : left.receivables = right.receivables := by
    ext1 key
    ext1 receivable
    rw [leftCoherent.waiting, rightCoherent.waiting, sameBlocks]
  have sameFrontiers : left.frontiers = right.frontiers := by
    ext1 hash
    ext1 account
    rw [leftCoherent.fronted, rightCoherent.fronted, sameBlocks, sameSuccessors]
  have sameWeights : left.weights = right.weights := by
    apply weights_ext leftCoherent.tidy rightCoherent.tidy
    intro representative
    rw [leftCoherent.weighed, rightCoherent.weighed]
    unfold delegated
    rw [sameAccounts, sameBlocks]
  cases left
  cases right
  simp only [Tables.mk.injEq]
  exact ⟨sameAccounts, sameBlocks, sameSuccessors, sameReceivables, sameFrontiers, sameWeights,
    sameParked, sameVersion⟩

end Tables.Coherent

end AccountChains
