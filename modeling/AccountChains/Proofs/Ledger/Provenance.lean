import AccountChains.Proofs.Ledger.Growth

/-!
Contract: where stored blocks come from.

A ledger may be asked for some kinds of calls only. Every block that it stores then
is the genesis block, or was taken in by one of these calls at a time when it suited
what was stored. What such a call establishes about a block alone stays true as long
as the block is stored.

Owns: states reached by some kinds of calls, and the origin of a stored block. Does
not own: what follows for a property of blocks.
-/

namespace AccountChains

open BlockTable Tables

namespace Ledger

/-- A ledger gets into a state by calls of some kinds. -/
inductive ReachableBy (constants : LedgerConstants) (allowed : Call → Prop) : Tables → Prop where
  | started (now : Timestamp) (parked : Table ParkedKey ParkedBlock) (version : Option UInt32) :
      ReachableBy constants allowed (started constants now parked version)
  | after {tables next : Tables} {call : Call} (reached : ReachableBy constants allowed tables)
      (isAllowed : allowed call) (leads : Leads constants tables call next) :
      ReachableBy constants allowed next

/-- A stored block was taken in by an allowed call, at a time when it suited what was stored. -/
inductive TakenIn (constants : LedgerConstants) (allowed : Call → Prop) (stored : StoredBlock) :
    Prop where
  | before {earlier : Tables} {now : Timestamp} {hint : Verification}
      (reached : ReachableBy constants allowed earlier)
      (isAllowed : allowed (.process now hint stored.block))
      (suits : Suits constants hint earlier.blocks stored) : TakenIn constants allowed stored

section Origins

variable {constants : LedgerConstants} {allowed : Call → Prop} {tables : Tables}
  {hash : BlockHash} {stored : StoredBlock}

theorem ReachableBy.reachable (reached : ReachableBy constants allowed tables) :
    Reachable constants tables := by
  induction reached with
  | started now parked version => exact .started now parked version
  | after _ _ leads inductionHypothesis => exact .after inductionHypothesis leads

theorem Reachable.reachableBy (reachable : Reachable constants tables) :
    ReachableBy constants (fun _ => True) tables := by
  induction reachable with
  | started now parked version => exact .started now parked version
  | after _ leads inductionHypothesis => exact .after inductionHypothesis trivial leads

/-- Every stored block but the genesis block was taken in by one of the allowed calls. -/
theorem ReachableBy.takenIn (reached : ReachableBy constants allowed tables)
    (sound : constants.Sound) (found : tables.blocks.get? hash = some stored)
    (notGenesis : hash ≠ constants.genesis.hash) : TakenIn constants allowed stored := by
  induction reached with
  | started now parked version =>
      exact absurd ((found_started now parked version).mp found).1 notGenesis
  | @after tables next call reached isAllowed leads inductionHypothesis =>
      have coherent := reached.reachable.coherent sound
      cases leads with
      | @answered _ now hint block receipt named returned =>
          by_cases progresses : receipt.verdict = .progress
          · have grows : Grows constants tables ⟨now, hint, block⟩ next :=
              ⟨receipt, returned, progresses⟩
            obtain ⟨sideband, -, suits, -, rfl⟩ := grows.suits coherent sound named
            rcases found_append.mp found with ⟨-, rfl⟩ | ⟨-, foundBefore⟩
            · exact .before reached isAllowed suits
            · exact inductionHypothesis foundBefore
          · cases processes_of_run coherent named returned with
            | declined => exact inductionHypothesis found
            | appended => exact absurd (Entry.progresses _) progresses
      | failed named returned =>
          cases processes_of_run coherent named returned with
          | failed => exact inductionHypothesis found
      | undone present removable =>
          have removes := (rollback_unwinds coherent sound present removable).removes
          exact inductionHypothesis (removes.found_iff.mp found).2

end Origins

end Ledger

end AccountChains
