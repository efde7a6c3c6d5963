import AccountChains.Proofs.Ledger.Reachable

/-!
Contract: what is undone, and what is left.

Undoing a block removes the block and all that depends on it, however far away,
and nothing else. A block that was taken in last can be undone alone, and then
the ledger is what it was before.

Owns: the outcome of undoing in every state that a ledger gets into. Does not own:
how undoing goes on, and its depth.
-/

namespace AccountChains

open BlockTable Tables

namespace Ledger

variable {constants : LedgerConstants} {tables : Tables} {hash : BlockHash}

/-- Undoing a block comes to its end, and removes what depends on the block and nothing else. -/
structure UndoesDependents (constants : LedgerConstants) (tables : Tables) (hash : BlockHash)
    (undoing : Undoing Tables) : Prop where
  completes : undoing.outcome = .ok ()
  undone_iff : ∀ removed, removed ∈ undoing.undone ↔
    (∃ stored, tables.blocks.get? removed = some stored) ∧
      Relation.ReflTransGen (DependsOn constants.genesis.hash tables.blocks) removed hash
  once : undoing.undone.Nodup
  /-- Dependents are undone first. -/
  order : ∀ {removed dependency}, dependency ∈ undoing.undone →
    Relation.TransGen (DependsOn constants.genesis.hash tables.blocks) removed dependency →
    removed ∈ undoing.undone ∧ undoing.undone.idxOf removed < undoing.undone.idxOf dependency
  /-- Other blocks stay as they are, sideband included. -/
  blocks : ∀ other, undoing.store.blocks.get? other
    = if other ∈ undoing.undone then none else tables.blocks.get? other

theorem Unwinds.undoesDependents {undoing : Undoing Tables} {stored : StoredBlock}
    (unwinds : Unwinds constants tables hash undoing) (sound : constants.Sound)
    (coherent : tables.Coherent constants) (found : tables.blocks.get? hash = some stored) :
    UndoesDependents constants tables hash undoing where
  completes := unwinds.completes
  undone_iff removed := by
    have removes := unwinds.removes
    have isUndone := removes.mem_of_absent found unwinds.gone
    constructor
    · intro member
      exact ⟨(removes.stored_of_mem member).2, unwinds.dependents removed member⟩
    · rintro ⟨-, depends⟩
      rcases Relation.reflTransGen_iff_eq_or_transGen.mp depends with rfl | depends
      · exact isUndone
      · exact (removes.dependents_first sound coherent isUndone depends).1
  once := unwinds.removes.nodup sound coherent
  order member depends := unwinds.removes.dependents_first sound coherent member depends
  blocks other := by
    split
    · next removed => exact unwinds.removes.absent_of_mem removed
    · next kept =>
        ext1 block
        rw [unwinds.removes.found_iff]
        simp [kept]

/-- Undoing a stored block other than the genesis block removes the block and every stored block
that depends on it, and nothing else. -/
theorem Reachable.rollback_exact {stored : StoredBlock} (reachable : Reachable constants tables)
    (sound : constants.Sound) (found : tables.blocks.get? hash = some stored)
    (notGenesis : hash ≠ constants.genesis.hash) :
    UndoesDependents constants tables hash (rollback hash tables) := by
  have coherent := reachable.coherent sound
  exact (rollback_unwinds coherent sound found notGenesis).undoesDependents sound coherent found

theorem devReceived_rollback_exact :
    UndoesDependents .dev devReceived devSend.hash (rollback devSend.hash devReceived) := by
  obtain ⟨stored, found⟩ := devSend_stored
  exact Reachable.rollback_exact reachable_devReceived dev_sound found devSend_ne_genesis

/-- Undoing a block that was just taken in brings back the ledger as it was, table by table. -/
theorem Reachable.rollback_process {now : Timestamp} {hint : Verification} {block : Block}
    {receipt : Receipt} {written : Tables} (reachable : Reachable constants tables)
    (sound : constants.Sound) (named : block.hash ≠ .zero)
    (returned : (process constants now hint block).run tables = (.ok receipt, written))
    (progresses : receipt.verdict = .progress) :
    rollback block.hash written = ⟨tables, [block.hash], .ok ()⟩ := by
  have coherent := reachable.coherent sound
  cases processes_of_run coherent named returned with
  | declined isRefusal => exact absurd progresses isRefusal
  | @appended entry accepted room =>
      have admissible := accepted.admissible coherent sound room now named
      refine rollback_restores sound (coherent.append sound admissible) coherent
        (found_append.mpr (.inl ⟨rfl, rfl⟩)) (coherent.fresh_ne_genesis admissible)
        (coherent.append_loose sound admissible) ?_ ?_ ?_
      · exact Table.erase_insert_of_absent admissible.fresh _
      · rfl
      · rfl

theorem devSent_rollback_process :
    rollback devOpening.hash devReceived = ⟨devSent, [devOpening.hash], .ok ()⟩ :=
  Reachable.rollback_process reachable_devSent dev_sound dev_named.2 devOpening_progresses rfl

end Ledger

end AccountChains
