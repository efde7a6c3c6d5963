import AccountChains.Proofs.Intake.Permanence

/-!
Contract: what a forced block costs, whatever becomes of it.

The block that has the slot of a forced block is undone before the forced block is
judged, and the transaction is committed in any case. So a forced block that is refused
may cost its competitor, and all that depends on it, but nothing else: it is stored, or
blocks and records stay as they are, or the ledger is the one without the competitor.

Owns: the step in which the worker handles a forced block, for any block. Does not own:
what is left when the competitor is the genesis block.
-/

namespace AccountChains

open BlockTable Ledger

namespace Ledger

variable {constants : LedgerConstants} {tables final : Tables} {hash : BlockHash}
  {stored : StoredBlock}

/-- The record of an account stays as it is if no head of its chain is taken away. -/
theorem Removes.accounts_eq {undone : List BlockHash} {account : Account}
    (removes : Removes constants tables undone final)
    (apart : ∀ removed ∈ undone, ∀ stored, tables.blocks.get? removed = some stored →
      stored.sideband.account ≠ account) :
    final.accounts.get? account = tables.accounts.get? account := by
  induction removes with
  | done => rfl
  | next removable precedes _ inductionHypothesis =>
      obtain ⟨headApart, restApart⟩ := List.forall_mem_cons.mp apart
      rw [inductionHypothesis fun removed member stored found =>
        restApart removed member stored (Tables.found_retract.mp found).2]
      exact Tables.get?_accounts_retract_of_ne (headApart _ removable.found).symm

/-- A block has been taken out of a ledger together with its dependents, and nothing else has
changed: other blocks are as before, and so are the records of accounts that own none of them. -/
structure Displaces (constants : LedgerConstants) (before : Tables) (loser : BlockHash)
    (after : Tables) : Prop where
  reduced : ∃ reduced, Without constants before loser reduced ∧
    after.blocks = reduced.blocks ∧ after.accounts = reduced.accounts
  records : ∀ account, (∀ removed stored, before.blocks.get? removed = some stored →
      Relation.ReflTransGen (DependsOn constants.genesis.hash before.blocks) removed loser →
      stored.sideband.account ≠ account) →
    after.accounts.get? account = before.accounts.get? account

theorem Reachable.displaces (reachable : Reachable constants tables) (sound : constants.Sound)
    (found : tables.blocks.get? hash = some stored) (notGenesis : hash ≠ constants.genesis.hash)
    (blocks : final.blocks = (rollback hash tables).store.blocks)
    (accounts : final.accounts = (rollback hash tables).store.accounts) :
    Displaces constants tables hash final where
  reduced := ⟨_, reachable.without_rollback sound found notGenesis, blocks, accounts⟩
  records account apart := by
    have unwinds := rollback_unwinds (reachable.coherent sound) sound found notGenesis
    rw [accounts]
    exact unwinds.removes.accounts_eq fun removed member block isBlock =>
      apart removed block isBlock (unwinds.dependents removed member)

/-- How a ledger differs from what it was before a block was forced. -/
inductive ForcedOutcome (constants : LedgerConstants) (block : Block) (before after : Tables) :
    Prop where
  | stored (contained : after.blocks.contains block.hash)
  | unchanged (blocks : after.blocks = before.blocks) (accounts : after.accounts = before.accounts)
  /-- The block is not stored, but it has cost the other block that had its slot. -/
  | displaced {loser : BlockHash} {stored : StoredBlock}
      (occupied : before.blocks.get? loser = some stored)
      (sameSlot : stored.block.qualifiedRoot = block.qualifiedRoot)
      (different : loser ≠ block.hash)
      (displaces : loser ≠ constants.genesis.hash → Displaces constants before loser after)

end Ledger

namespace Processor

variable {setup : IntakeSetup} {processor : Processor Tables} {batch : Batch Tables}

/-- After an offer the block is stored, or blocks and records are as they were; unless the worker
has ended with it. -/
theorem Offered.lands {now : Timestamp} {item : QueuedBlock} {store : Tables}
    {worker : Worker Tables} (offered : Offered setup now item store worker) :
    (∃ cause, worker = .crashed cause) ∨ ∃ after, worker.batch? = some after ∧
      (after.store.blocks.contains item.hash ∨
        after.store.blocks = store.blocks ∧ after.store.accounts = store.accounts) := by
  have lands := lands_process now setup.constants item.verified item.block store
  cases offered with
  | crashed => exact .inl ⟨_, rfl⟩
  | failed ran | settled ran | frees ran =>
      rw [ran] at lands
      refine .inr ⟨_, rfl, ?_⟩
      rcases lands with held | same
      · exact .inl held.stored
      · exact .inr ⟨same.blocks, same.accounts⟩

/-- Whatever block is forced, afterwards it is stored, or blocks and records are as before, or
another block had its slot, and exactly that block and its dependents are gone. If the worker ends
with it, nothing is written at all. -/
theorem forced_stored_or_displaced {block : Handle} (moment : Moment)
    (handling : processor.worker = .handling batch (.forced block))
    (reachable : Reachable setup.constants batch.store) (sound : setup.constants.Sound) :
    ∃ next, processor.advance setup moment = some next ∧
      ((∃ cause, next.worker = .crashed cause ∧ next.store = processor.store) ∨
        ∃ after, next.worker.batch? = some after ∧
          ForcedOutcome setup.constants block.block batch.store after.store) := by
  refine ⟨processor.handle setup moment.now batch (.forced block), ?_, ?_⟩
  · unfold advance
    rw [handling]
  rcases handle_forced setup processor moment.now block batch with
    ⟨cause, fails, -⟩ | ⟨removed, cleared, worker, metrics, isOffer, clears, offered⟩
  · rw [fails]
    exact .inl ⟨cause, rfl, rfl⟩
  rw [isOffer]
  have sameStore : ({ processor with queues := processor.queues.remember removed, worker, metrics }
      : Processor Tables).store = processor.store := rfl
  rcases offered.lands with ⟨cause, crashed⟩ | ⟨after, isOpen, contained | ⟨blocks, accounts⟩⟩
  · exact .inl ⟨cause, crashed, sameStore⟩
  · exact .inr ⟨after, isOpen, .stored contained⟩
  refine .inr ⟨after, isOpen, ?_⟩
  -- The forced block is not stored, so the ledger is what making room has left.
  have displaced {loser : BlockHash} (isCleared : cleared = (rollback loser batch.store).store)
      (competes : Bench.competitor? batch.store block.block = .ok (some loser)) :
      ForcedOutcome setup.constants block.block batch.store after.store := by
    obtain ⟨different, stored, found, sameSlot⟩ :=
      Bench.slot_of_competitor? (reachable.coherent sound) competes
    refine .displaced found ((reachable.qualifiedRoot_eq sound found).trans sameSlot) different
      fun notGenesis => reachable.displaces sound found notGenesis ?_ ?_
    · rw [blocks, isCleared]
    · rw [accounts, isCleared]
  cases clears with
  | vacant => exact .unchanged blocks accounts
  | stuck competes => exact displaced rfl competes
  | undone competes => exact displaced rfl competes

section Development

open LedgerConstants

/-- A block for the slot of the send that nobody has signed. -/
def devRival : Block where
  content := .state
    { account := dev.genesisAccount, previous := dev.genesis.hash
      representative := dev.genesisAccount, balance := .zero, link := .zero }
  signature := ⟨.allOnes 512⟩
  work := 0

/-- The worker is about to handle the rival, whose slot a received send has. -/
def devContested : Processor Tables :=
  { devFresh with worker := .handling ⟨devReceived, [], 0⟩ (.forced ⟨0, devRival⟩) }

private theorem devContested_evaluated :
    ((devContested.advance devSetup ⟨.zero, 0⟩).bind fun next => next.worker.batch?).any
      fun after => !after.store.blocks.contains devRival.hash &&
        !after.store.blocks.contains devSend.hash := by
  decide +kernel

theorem devContested_stored_or_displaced : ∃ next,
    devContested.advance devSetup ⟨.zero, 0⟩ = some next ∧
      ((∃ cause, next.worker = .crashed cause ∧ next.store = devContested.store) ∨
        ∃ after, next.worker.batch? = some after ∧
          ForcedOutcome devSetup.constants devRival devReceived after.store) := by
  have handling : devContested.worker = .handling ⟨devReceived, [], 0⟩ (.forced ⟨0, devRival⟩) :=
    rfl
  exact forced_stored_or_displaced ⟨.zero, 0⟩ handling reachable_devReceived dev_sound

/-- An unsigned block is refused, and the send that had its slot is gone all the same. -/
theorem devContested_not_atomic : ¬ ∀ (processor : Processor Tables) (batch : Batch Tables)
    (block : Handle) (moment : Moment) (next : Processor Tables) (after : Batch Tables),
    processor.worker = .handling batch (.forced block) → Reachable dev batch.store →
      processor.advance devSetup moment = some next → next.worker.batch? = some after →
      after.store.blocks.contains block.block.hash ∨
        after.store.accounts = batch.store.accounts ∧
          ∀ hash stored, batch.store.blocks.get? hash = some stored →
            after.store.blocks.get? hash = some stored := by
  intro atomic
  obtain ⟨after, isAfter, lost⟩ := (Option.any_eq_true _ _).mp devContested_evaluated
  obtain ⟨next, advances, isOpen⟩ := Option.bind_eq_some_iff.mp isAfter
  simp only [Bool.and_eq_true, Bool.not_eq_true'] at lost
  obtain ⟨stored, found⟩ := devSend_stored
  rcases atomic devContested ⟨devReceived, [], 0⟩ ⟨0, devRival⟩ ⟨.zero, 0⟩ next after rfl
      reachable_devReceived advances isOpen with contained | ⟨-, kept⟩
  · exact absurd contained (by simp [lost.1])
  · exact absurd ((Table.contains_eq_true_iff _ _).mpr ⟨stored, kept _ _ found⟩) (by simp [lost.2])

end Development

end Processor

end AccountChains
