import AccountChains.Proofs.Ledger.Slots

/-!
Contract: who has a slot, and what the queries about slots answer.

Every slot has at most one stored block. First blocks are found through the records of
their accounts and all others through the links from the blocks before them; for the slot
of any block, stored or not, both ways together name the block that has it, and nothing
else. A block makes progress only in the slot that is next in the chain of its owner.

Owns: `Occupancy`, and the exactness of the queries in every state that a ledger gets into.
Does not own: what becomes of a second block for a slot.
-/

namespace AccountChains

open Tables

namespace Ledger

variable {constants : LedgerConstants} {tables : Tables} {stored : StoredBlock}

/-- What there is to say about a slot: nobody has it, or one stored block does. -/
inductive Occupancy (tables : Tables) (slot : QualifiedRoot) :
    Option BlockHash → Option Block → Prop where
  | free (nobody : ∀ hash stored, tables.blocks.get? hash = some stored →
      stored.block.qualifiedRoot ≠ slot) : Occupancy tables slot none none
  | taken {hash : BlockHash} {occupant : StoredBlock}
      (found : tables.blocks.get? hash = some occupant) (identified : occupant.hash = hash)
      (has : occupant.block.qualifiedRoot = slot)
      (only : ∀ other stored, tables.blocks.get? other = some stored →
        stored.block.qualifiedRoot = slot → other = hash) :
      Occupancy tables slot (some hash) (some occupant.block)

/-- Slots and blocks go together one to one, as far as there are blocks. -/
structure OnePerSlot (constants : LedgerConstants) (tables : Tables) : Prop where
  distinct : ∀ {hash other stored found}, tables.blocks.get? hash = some stored →
    tables.blocks.get? other = some found →
    stored.block.qualifiedRoot = found.block.qualifiedRoot → hash = other
  /-- The queries answer for every block, stored or not. -/
  answered : ∀ block : Block, ∃ hash competitor,
    successor? tables block.qualifiedRoot = .ok hash ∧
    forkedBlock? tables block = .ok competitor ∧
    Occupancy tables block.qualifiedRoot hash competitor
  /-- Whoever owns the block afterwards had its root as the next one before. -/
  continued : ∀ {now hint block receipt next}, block.hash ≠ .zero →
    (process constants now hint block).run tables = (.ok receipt, next) →
    receipt.verdict = .progress →
    account? next block.hash = .ok (some receipt.account) ∧
      latestRoot tables receipt.account = .ok block.root

/-! ## The two ways to a block -/

/-- Asking who has a slot never fails. -/
theorem exists_successor? (tables : Tables) (slot : QualifiedRoot) :
    ∃ hash, successor? tables slot = .ok hash := by
  by_cases isFirst : slot.previous = .zero
  · cases recorded : tables.accounts.get? slot.root.asAccount with
    | none =>
        refine ⟨tables.successors.get? .zero, ?_⟩
        simp [successor?, isFirst, recorded, AccountChains.stored, Store.account?,
          Store.successor?, Except.mapError, bind, Except.bind]
    | some record =>
        refine ⟨some record.openBlock, ?_⟩
        simp [successor?, isFirst, recorded, AccountChains.stored, Store.account?,
          Except.mapError, bind, Except.bind, pure, Except.pure]
  · refine ⟨tables.successors.get? slot.previous, ?_⟩
    simp [successor?, isFirst, AccountChains.stored, Store.successor?, Except.mapError]

theorem forkedBlock?_of_free {block : Block}
    (free : successor? tables block.qualifiedRoot = .ok none) :
    forkedBlock? tables block = .ok none := by
  simp [forkedBlock?, free, bind, Except.bind, pure, Except.pure]

theorem forkedBlock?_of_taken {block : Block} {hash : BlockHash}
    (leads : successor? tables block.qualifiedRoot = .ok (some hash))
    (found : tables.blocks.get? hash = some stored) :
    forkedBlock? tables block = .ok (some stored.block) := by
  simp [forkedBlock?, leads, found, AccountChains.stored, Store.block?, Except.mapError, bind,
    Except.bind, pure, Except.pure]

section States

variable (reachable : Reachable constants tables) (sound : constants.Sound)

include reachable sound

/-- The ways from two blocks with one slot lead to the same place. -/
theorem Reachable.eq_of_qualifiedRoot {hash other : BlockHash} {found : StoredBlock}
    (isStored : tables.blocks.get? hash = some stored)
    (alsoStored : tables.blocks.get? other = some found)
    (sameSlot : stored.block.qualifiedRoot = found.block.qualifiedRoot) : hash = other := by
  have leads := reachable.successor?_eq sound isStored
  rw [sameSlot, reachable.successor?_eq sound alsoStored] at leads
  exact (Option.some.inj (Except.ok.inj leads)).symm

/-- What a slot leads to is a stored block that has this slot. -/
theorem Reachable.occupant_of_successor? {block : Block} {hash : BlockHash}
    (leads : successor? tables block.qualifiedRoot = .ok (some hash)) :
    ∃ occupant, tables.blocks.get? hash = some occupant ∧
      occupant.block.qualifiedRoot = block.qualifiedRoot := by
  obtain ⟨occupant, found, slot⟩ := slot_of_successor? (reachable.coherent sound) leads
  exact ⟨occupant, found, (reachable.qualifiedRoot_eq sound found).trans slot⟩

theorem Reachable.occupancy (block : Block) : ∃ hash competitor,
    successor? tables block.qualifiedRoot = .ok hash ∧
    forkedBlock? tables block = .ok competitor ∧
    Occupancy tables block.qualifiedRoot hash competitor := by
  obtain ⟨answer, leads⟩ := exists_successor? tables block.qualifiedRoot
  cases answer with
  | none =>
      refine ⟨none, none, leads, forkedBlock?_of_free leads, .free ?_⟩
      intro hash stored found sameSlot
      have taken := reachable.successor?_eq sound found
      rw [sameSlot, leads] at taken
      cases taken
  | some hash =>
      obtain ⟨occupant, found, has⟩ := reachable.occupant_of_successor? sound leads
      refine ⟨some hash, some occupant.block, leads, forkedBlock?_of_taken leads found,
        .taken found ((reachable.coherent sound).keyed found).1 has ?_⟩
      intro other stored alsoStored alsoHas
      exact reachable.eq_of_qualifiedRoot sound alsoStored found (alsoHas.trans has.symm)

end States

/-! ## The next slot of a chain -/

theorem Entry.account_sideband (entry : Entry) (now : Timestamp) :
    (entry.sideband now).account = entry.receipt.account := by
  cases entry <;> rfl

section Continuing

variable (coherent : tables.Coherent constants)

include coherent

/-- A block that may be added has the slot that is next in the chain of its account. -/
theorem latestRoot_of_placed (placed : Placed tables stored)
    (slot : stored.block.qualifiedRoot
      = slotOf stored.block.previous stored.sideband.account) :
    latestRoot tables stored.sideband.account = .ok stored.block.root := by
  have root : stored.block.root = (slotOf stored.block.previous stored.sideband.account).root :=
    congrArg QualifiedRoot.root slot
  cases placed with
  | first absent isFirst =>
      simp [root, isFirst, slotOf_first, latestRoot, absent, AccountChains.stored,
        Store.account?, Except.mapError, bind, Except.bind, pure, Except.pure]
  | next recorded isNext =>
      obtain ⟨head, describes⟩ := coherent.recorded recorded
      have later : stored.block.previous ≠ .zero := isNext ▸ (coherent.keyed describes.found).2
      rw [root, slotOf_later later, isNext]
      simp [latestRoot, recorded, AccountChains.stored, Store.account?, Except.mapError, bind,
        Except.bind, pure, Except.pure]

theorem latestRoot_of_progress (sound : constants.Sound) {now : Timestamp} {hint : Verification}
    {block : Block} {receipt : Receipt} {next : Tables} (named : block.hash ≠ .zero)
    (returned : (process constants now hint block).run tables = (.ok receipt, next))
    (progresses : receipt.verdict = .progress) :
    account? next block.hash = .ok (some receipt.account) ∧
      latestRoot tables receipt.account = .ok block.root := by
  obtain ⟨entry, judged, room, rfl, rfl⟩ := entry_of_progress coherent named returned progresses
  have admissible := (accepted_of_judge judged).admissible coherent sound room now named
  have slot := (suits_of_judge coherent sound judged room now named).1.qualifiedRoot_eq
  rw [← entry.account_sideband now]
  refine ⟨?_, latestRoot_of_placed coherent admissible.placed slot⟩
  have added : (tables.append ⟨block, entry.sideband now⟩).blocks.get? block.hash
      = some ⟨block, entry.sideband now⟩ := found_append.mpr (.inl ⟨rfl, rfl⟩)
  simp [account?, added, AccountChains.stored, Store.block?, Except.mapError, bind, Except.bind,
    pure, Except.pure]

end Continuing

/-- In every state that a ledger gets into, a slot has one block at most, the queries about the
slot of any block name the block that has it or nobody, and a block makes progress only in the
next slot of its owner. -/
theorem Reachable.one_per_slot (reachable : Reachable constants tables)
    (sound : constants.Sound) : OnePerSlot constants tables where
  distinct := reachable.eq_of_qualifiedRoot sound
  answered := reachable.occupancy sound
  continued named := latestRoot_of_progress (reachable.coherent sound) sound named

/-- The two blocks of a chain and the first block of another one. -/
theorem devReceived_one_per_slot : OnePerSlot .dev devReceived :=
  Reachable.one_per_slot reachable_devReceived dev_sound

end Ledger

end AccountChains
