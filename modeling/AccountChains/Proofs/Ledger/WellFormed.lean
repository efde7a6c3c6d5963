import AccountChains.Proofs.Ledger.Reachable

/-!
Contract: the chain of every account.

The way back from the head of an account visits the stored blocks of the account,
each once, and comes down to the block that opened it, one height at a time. What
is kept about the account beside its blocks is what the head says.

Owns: the way back (`Descends`), and the shape of every state that a ledger gets
into. Does not own: the invariant behind it.
-/

namespace AccountChains

open BlockTable Tables

/-- The blocks on the way back from a block to the first one of its chain. -/
inductive BlockTable.Descends (blocks : BlockTable) :
    BlockHash → List (BlockHash × StoredBlock) → Prop where
  | first {hash : BlockHash} {stored : StoredBlock} (found : blocks.get? hash = some stored)
      (isFirst : stored.block.previous = .zero) : Descends blocks hash [(hash, stored)]
  | next {hash : BlockHash} {stored : StoredBlock} {path : List (BlockHash × StoredBlock)}
      (found : blocks.get? hash = some stored) (later : stored.block.previous ≠ .zero)
      (rest : Descends blocks stored.block.previous path) :
      Descends blocks hash ((hash, stored) :: path)

namespace Ledger

/-- A way back from the head of an account visits all that the account has, from the height of
the head down to one. -/
structure IsChain (tables : Tables) (account : Account) (record : AccountRecord)
    (path : List (BlockHash × StoredBlock)) : Prop where
  descends : Descends tables.blocks record.head path
  visits : ∀ hash stored, (hash, stored) ∈ path ↔
    tables.blocks.get? hash = some stored ∧ stored.sideband.account = account
  heights : path.map (fun visited => visited.2.sideband.height.toNat)
    = (List.range' 1 record.blockCount.toNat).reverse
  opens : path.getLast?.map Prod.fst = some record.openBlock

/-- The tables of a ledger describe chains of blocks. -/
structure WellFormed (constants : LedgerConstants) (tables : Tables) : Prop where
  owned : ∀ {hash stored}, tables.blocks.get? hash = some stored →
    ∃ record, tables.accounts.get? stored.sideband.account = some record
  chain : ∀ {account record}, tables.accounts.get? account = some record →
    ∃ path, IsChain tables account record path
  described : ∀ {account record}, tables.accounts.get? account = some record →
    ∃ head, tables.blocks.get? record.head = some head ∧
      record.balance = head.sideband.balance ∧
      record.epoch = head.sideband.details.epoch ∧
      record.modified = head.sideband.timestamp
  represented : ∀ {account record}, tables.accounts.get? account = some record →
    representativeBlock? tables record.head = .ok (some record.representativeBlock)
  linked : ∀ previous hash, tables.successors.get? previous = some hash ↔
    previous ≠ .zero ∧ ∃ stored, tables.blocks.get? hash = some stored ∧
      stored.block.previous = previous
  last : ∀ {account record}, tables.accounts.get? account = some record →
    tables.successors.get? record.head = none
  fronted : ∀ hash account, tables.frontiers.get? hash = some account ↔
    ∃ record head, tables.accounts.get? account = some record ∧ record.head = hash ∧
      tables.blocks.get? hash = some head ∧ head.block.kind.isLegacy
  /-- The genesis block alone names a source that is not there. -/
  grounded : ∀ {hash stored}, tables.blocks.get? hash = some stored →
    hash ≠ constants.genesis.hash →
    (stored.block.previous ≠ .zero →
      ∃ before, tables.blocks.get? stored.block.previous = some before) ∧
    ∀ source, stored.transfer = .receives source →
      ∃ send, tables.blocks.get? source = some send

section Descent

variable {constants : LedgerConstants} {tables : Tables} {hash : BlockHash} {stored : StoredBlock}
  {path : List (BlockHash × StoredBlock)}

theorem head_mem_of_descends (descends : Descends tables.blocks hash path)
    (found : tables.blocks.get? hash = some stored) : (hash, stored) ∈ path := by
  cases descends with
  | first headFound =>
      obtain rfl := Option.some.inj (headFound.symm.trans found)
      exact List.mem_singleton_self _
  | next headFound =>
      obtain rfl := Option.some.inj (headFound.symm.trans found)
      exact List.mem_cons_self

/-- A way back does not leave out a block before one it visits. -/
theorem previous_mem_of_descends {before : StoredBlock}
    (descends : Descends tables.blocks hash path) {visited : BlockHash}
    (member : (visited, stored) ∈ path) (later : stored.block.previous ≠ .zero)
    (found : tables.blocks.get? stored.block.previous = some before) :
    (stored.block.previous, before) ∈ path := by
  induction descends with
  | first _ isFirst =>
      obtain ⟨-, rfl⟩ := Prod.mk.inj (List.mem_singleton.mp member)
      exact absurd isFirst later
  | next _ _ rest inductionHypothesis =>
      apply List.mem_cons_of_mem
      rcases List.mem_cons.mp member with here | further
      · obtain ⟨-, rfl⟩ := Prod.mk.inj here
        exact head_mem_of_descends rest found
      · exact inductionHypothesis further

/-- A way back ends at a first block. -/
theorem ends_of_descends (descends : Descends tables.blocks hash path) :
    ∃ first opening, path.getLast? = some (first, opening) ∧ opening.block.previous = .zero := by
  induction descends with
  | first _ isFirst => exact ⟨_, _, rfl, isFirst⟩
  | next _ _ rest inductionHypothesis =>
      obtain ⟨first, opening, last, isFirst⟩ := inductionHypothesis
      refine ⟨first, opening, ?_, isFirst⟩
      rw [List.getLast?_cons, last, Option.getD_some]

variable (coherent : tables.Coherent constants) (sound : constants.Sound)

include coherent sound

/-- From every stored block there is a way back. -/
theorem exists_descends (found : tables.blocks.get? hash = some stored) :
    ∃ path, Descends tables.blocks hash path := by
  induction height : stored.sideband.height.toNat using Nat.strongRecOn
    generalizing hash stored with
  | ind height inductionHypothesis =>
      by_cases first : stored.block.previous = .zero
      · exact ⟨_, .first found first⟩
      · obtain ⟨before, beforeFound, follows⟩ := coherent.later_block sound found first
        have oneHigher := follows.height
        obtain ⟨path, descends⟩ := inductionHypothesis _ (by omega) beforeFound rfl
        exact ⟨_, .next found first descends⟩

theorem heights_of_descends (descends : Descends tables.blocks hash path)
    (found : tables.blocks.get? hash = some stored) :
    path.map (fun visited => visited.2.sideband.height.toNat)
      = (List.range' 1 stored.sideband.height.toNat).reverse := by
  induction descends generalizing stored with
  | first headFound isFirst =>
      obtain rfl := Option.some.inj (headFound.symm.trans found)
      rw [List.map_singleton, (coherent.first_block sound found isFirst).1]
      rfl
  | next headFound later rest inductionHypothesis =>
      obtain rfl := Option.some.inj (headFound.symm.trans found)
      obtain ⟨before, beforeFound, follows⟩ := coherent.later_block sound found later
      rw [List.map_cons, inductionHypothesis beforeFound, follows.height, List.range'_1_concat,
        List.reverse_concat, Nat.add_comm]

/-- A way back stays in the chain that it starts in. -/
theorem owned_of_descends (descends : Descends tables.blocks hash path)
    (found : tables.blocks.get? hash = some stored) {visited : BlockHash} {block : StoredBlock}
    (member : (visited, block) ∈ path) :
    tables.blocks.get? visited = some block ∧
      block.sideband.account = stored.sideband.account := by
  induction descends generalizing stored with
  | first headFound =>
      obtain rfl := Option.some.inj (headFound.symm.trans found)
      obtain ⟨rfl, rfl⟩ := Prod.mk.inj (List.mem_singleton.mp member)
      exact ⟨found, rfl⟩
  | next headFound later rest inductionHypothesis =>
      obtain rfl := Option.some.inj (headFound.symm.trans found)
      rcases List.mem_cons.mp member with here | further
      · obtain ⟨rfl, rfl⟩ := Prod.mk.inj here
        exact ⟨found, rfl⟩
      · obtain ⟨before, beforeFound, follows⟩ := coherent.later_block sound found later
        rw [← follows.account]
        exact inductionHypothesis beforeFound further

/-- The way back from the head of a chain visits every block of the chain. -/
theorem mem_of_descends {record : AccountRecord}
    (descends : Descends tables.blocks record.head path)
    (found : tables.blocks.get? hash = some stored)
    (belongs : Belongs tables hash stored record) : (hash, stored) ∈ path := by
  -- Up the chain, where the distance to the head shrinks, and back down from the successor.
  induction distance : record.blockCount.toNat - stored.sideband.height.toNat
    generalizing hash stored with
  | zero =>
      by_cases isHead : record.head = hash
      · exact isHead ▸ head_mem_of_descends descends (isHead ▸ found)
      · have below := coherent.height_lt sound found belongs isHead
        omega
  | succ distance inductionHypothesis =>
      cases linked : tables.successors.get? hash with
      | none =>
          have isHead := belongs.last linked
          exact isHead ▸ head_mem_of_descends descends (isHead ▸ found)
      | some next =>
          obtain ⟨successor, nextFound, previous, follows, nextBelongs⟩ :=
            coherent.following sound found belongs linked
          have oneHigher := follows.height
          have above := inductionHypothesis nextFound nextBelongs (by omega)
          subst previous
          exact previous_mem_of_descends descends above (coherent.keyed found).2 found

theorem exists_chain {account : Account} {record : AccountRecord}
    (recorded : tables.accounts.get? account = some record) :
    ∃ path, IsChain tables account record path := by
  obtain ⟨head, describes⟩ := coherent.recorded recorded
  obtain ⟨path, descends⟩ := exists_descends coherent sound describes.found
  have stays : ∀ {visited block}, (visited, block) ∈ path →
      tables.blocks.get? visited = some block ∧ block.sideband.account = account := by
    intro visited block member
    rw [← describes.account]
    exact owned_of_descends coherent sound descends describes.found member
  have belongs : ∀ {visited block}, tables.blocks.get? visited = some block →
      block.sideband.account = account → Belongs tables visited block record := by
    intro visited block found owner
    obtain ⟨other, belongs⟩ := coherent.belongs found
    have otherFound := belongs.found
    rw [owner, recorded] at otherFound
    obtain rfl := Option.some.inj otherFound
    exact belongs
  refine ⟨path, descends, fun visited block => ⟨stays, ?_⟩, ?_, ?_⟩
  · rintro ⟨found, owner⟩
    exact mem_of_descends coherent sound descends found (belongs found owner)
  · rw [describes.blockCount]
    exact heights_of_descends coherent sound descends describes.found
  · obtain ⟨first, opening, last, isFirst⟩ := ends_of_descends descends
    obtain ⟨found, owner⟩ := stays (List.mem_of_getLast? last)
    rw [last, (belongs found owner).first isFirst]
    rfl

theorem representativeBlock?_head {account : Account} {record : AccountRecord}
    (recorded : tables.accounts.get? account = some record) :
    representativeBlock? tables record.head = .ok (some record.representativeBlock) := by
  obtain ⟨head, describes⟩ := coherent.recorded recorded
  obtain ⟨naming, named, answered⟩ := coherent.representativeBlock?_eq sound describes.found
  rw [answered, named.unique describes.representative]

omit sound in
theorem frontier_iff_head (hash : BlockHash) (account : Account) :
    tables.frontiers.get? hash = some account ↔
      ∃ record head, tables.accounts.get? account = some record ∧ record.head = hash ∧
        tables.blocks.get? hash = some head ∧ head.block.kind.isLegacy := by
  rw [coherent.fronted]
  constructor
  · rintro ⟨stored, found, rfl, legacy, last⟩
    obtain ⟨record, belongs⟩ := coherent.belongs found
    exact ⟨record, stored, belongs.found, belongs.last last, found, legacy⟩
  · rintro ⟨record, stored, recorded, rfl, found, legacy⟩
    obtain ⟨head, describes⟩ := coherent.recorded recorded
    obtain rfl := Option.some.inj (describes.found.symm.trans found)
    exact ⟨head, found, describes.account, legacy, describes.last⟩

omit sound in
theorem grounded (found : tables.blocks.get? hash = some stored)
    (notGenesis : hash ≠ constants.genesis.hash) :
    (stored.block.previous ≠ .zero →
      ∃ before, tables.blocks.get? stored.block.previous = some before) ∧
    ∀ source, stored.transfer = .receives source →
      ∃ send, tables.blocks.get? source = some send := by
  have justified := coherent.justified found notGenesis
  exact ⟨justified.previous_found, fun _ receives => justified.source_found receives⟩

end Descent

/-- In every state that a ledger gets into, the chain of an account is all that the account has,
and everything kept beside the blocks agrees with the heads. -/
theorem Reachable.wellFormed {constants : LedgerConstants} {tables : Tables}
    (reachable : Reachable constants tables) (sound : constants.Sound) :
    WellFormed constants tables := by
  have coherent := reachable.coherent sound
  exact {
    owned := fun found => by
      obtain ⟨record, belongs⟩ := coherent.belongs found
      exact ⟨record, belongs.found⟩
    chain := exists_chain coherent sound
    described := fun recorded => by
      obtain ⟨head, describes⟩ := coherent.recorded recorded
      exact ⟨head, describes.found, describes.balance, describes.epoch, describes.modified⟩
    represented := representativeBlock?_head coherent sound
    linked := coherent.linked
    last := fun recorded => by
      obtain ⟨head, describes⟩ := coherent.recorded recorded
      exact describes.last
    fronted := frontier_iff_head coherent
    grounded := grounded coherent }

theorem devReceived_wellFormed : WellFormed .dev devReceived :=
  Reachable.wellFormed reachable_devReceived dev_sound

end Ledger

end AccountChains
