import AccountChains.Proofs.Ledger.Custody

/-!
Contract: what the calls of the ledger leave alone, whatever the tables hold.

What is parked is no business of the ledger: neither offering a block nor undoing one
touches it, not even a call that fails half-way. And a block is stored before the
record of its account is written, so an offer that does not store its block has
changed neither the blocks nor the records of accounts. Nothing is assumed about the
tables: they need not agree with each other.

Owns: these two frames. Does not own: what a call does to tables that agree.
-/

namespace AccountChains

open Tables

namespace Ledger

/-! ## Writes beside the blocks and the records -/

/-- A property of tables that looks at nothing but blocks, records of accounts and what is
parked. -/
def Steady (holds : Tables → Prop) : Prop :=
  ∀ ⦃before after : Tables⦄, holds before → after.blocks = before.blocks →
    after.accounts = before.accounts → after.parked = before.parked → holds after

namespace Steady

variable {holds : Tables → Prop} (steady : Steady holds)

include steady

theorem addWeight (representative : Account) (amount : Amount) :
    (addWeight representative amount).Keeps holds :=
  .bind (.read _) fun _ => .write fun _ held => steady held rfl rfl rfl

theorem subtractWeight (representative : Account) (amount : Amount) :
    (subtractWeight representative amount).Keeps holds :=
  .bind (.read _) fun _ => .write fun _ held => steady held rfl rfl rfl

theorem putReceivable (key : ReceivableKey) (receivable : Receivable) :
    (Step.write (Store.putReceivable key receivable)).Keeps holds :=
  .write fun _ held => steady held rfl rfl rfl

theorem removeReceivable (key : ReceivableKey) :
    (Step.write (Store.removeReceivable key)).Keeps holds :=
  .write fun _ held => steady held rfl rfl rfl

theorem putFrontier (hash : BlockHash) (account : Account) :
    (Step.write (Store.putFrontier hash account)).Keeps holds :=
  .write fun _ held => steady held rfl rfl rfl

theorem removeFrontier (hash : BlockHash) :
    (Step.write (Store.removeFrontier hash)).Keeps holds :=
  .write fun _ held => steady held rfl rfl rfl

theorem moveFrontier (block : Block) (account : Account) :
    (moveFrontier block account).Keeps holds :=
  .bind (steady.removeFrontier _) fun _ => steady.putFrontier _ _

theorem dropFrontier (record : AccountRecord) : (dropFrontier record).Keeps holds :=
  .ite (fun _ => .bind (.read _) fun _ => .ite
    (fun _ => steady.removeFrontier _) fun _ => .pure ()) fun _ => .pure ()

end Steady

/-! ## Storing a block -/

/-- The blocks, the records and what is parked are those of the given tables. -/
structure SameAs (tables other : Tables) : Prop where
  blocks : other.blocks = tables.blocks
  accounts : other.accounts = tables.accounts
  parked : other.parked = tables.parked

/-- A block is stored under a hash, and what is parked is as in the given tables. -/
structure StoredBeside (hash : BlockHash) (tables other : Tables) : Prop where
  stored : other.blocks.contains hash
  parked : other.parked = tables.parked

theorem SameAs.refl (tables : Tables) : SameAs tables tables := ⟨rfl, rfl, rfl⟩

theorem steady_sameAs (tables : Tables) : Steady (SameAs tables) :=
  fun _ _ same blocks accounts parked =>
    ⟨blocks.trans same.blocks, accounts.trans same.accounts, parked.trans same.parked⟩

theorem steady_storedBeside (hash : BlockHash) (tables : Tables) :
    Steady (StoredBeside hash tables) :=
  fun _ _ held blocks _ parked => ⟨blocks ▸ held.stored, parked.trans held.parked⟩

/-- A step stores a block, or leaves all blocks and records as they are; and it never touches
what is parked. -/
def Lands {α : Type} (hash : BlockHash) (step : Step Tables α) : Prop :=
  ∀ tables, StoredBeside hash tables (step.run tables).2 ∨ SameAs tables (step.run tables).2

namespace Lands

variable {α β : Type} {hash : BlockHash} {block : Block}

/-- What comes before the block is stored changes neither blocks nor records. -/
theorem after {first : Step Tables α} {next : α → Step Tables β}
    (spares : ∀ {holds}, Steady holds → first.Keeps holds)
    (lands : ∀ value, Lands hash (next value)) : Lands hash (first >>= next) := by
  intro tables
  have same := spares (steady_sameAs tables) tables (.refl tables)
  rw [Step.run_bind]
  cases outcome : first.run tables with
  | mk answer written =>
      rw [outcome] at same
      cases answer with
      | error fault => exact .inr same
      | ok value =>
          rcases lands value written with held | rest
          · exact .inl ⟨held.stored, held.parked.trans same.parked⟩
          · exact .inr (steady_sameAs tables same rest.blocks rest.accounts rest.parked)

/-- Once the block is stored, what follows does not take it away. -/
theorem storing {sideband : Sideband} {next : Unit → Step Tables α}
    (keeps : ∀ tables, (next ()).Keeps (StoredBeside block.hash tables)) :
    Lands block.hash (storeBlock block sideband >>= next) := by
  intro tables
  refine .inl ?_
  rw [Step.run_bind, run_storeBlock]
  refine keeps tables _ ?_
  unfold linkBlock
  split
  · exact ⟨by simp [Table.contains], rfl⟩
  · exact ⟨by simp [Table.contains], rfl⟩

end Lands

section Offering

variable {block : Block} {account : Account} {record : AccountRecord} (now : Timestamp)

theorem keeps_updateAccount_stored (hash : BlockHash) (tables : Tables) (account : Account)
    (record : AccountRecord) :
    (updateAccount account record).Keeps (StoredBeside hash tables) := by
  refine .write fun _ held => ?_
  split
  · exact ⟨held.stored, held.parked⟩
  · exact ⟨held.stored, held.parked⟩

theorem lands_commitSend (content : SendContent) :
    Lands block.hash (commitSend block now account record content) := by
  unfold commitSend
  refine .after (fun _ => .read _) fun representative => ?_
  refine .after (fun steady => steady.subtractWeight _ _) fun _ => ?_
  refine .after (fun _ => .ofAnswer _) fun height => .storing fun tables => ?_
  have steady := steady_storedBeside block.hash tables
  refine .bind (keeps_updateAccount_stored _ _ _ _) fun _ => ?_
  exact .bind (steady.putReceivable _ _) fun _ => steady.moveFrontier _ _

theorem lands_commitReceive (content : ReceiveContent) (receivable : Receivable) :
    Lands block.hash (commitReceive block now account record content receivable) := by
  unfold commitReceive
  refine .after (fun steady => steady.removeReceivable _) fun _ => ?_
  refine .after (fun _ => .ofAnswer _) fun height => .storing fun tables => ?_
  have steady := steady_storedBeside block.hash tables
  refine .bind (keeps_updateAccount_stored _ _ _ _) fun _ => .bind (.read _) fun _ => ?_
  exact .bind (steady.addWeight _ _) fun _ => steady.moveFrontier _ _

theorem lands_commitOpening (content : OpeningContent) (receivable : Receivable) :
    Lands block.hash (commitOpening block now content receivable) := by
  unfold commitOpening
  refine .after (fun steady => steady.removeReceivable _) fun _ => .storing fun tables => ?_
  have steady := steady_storedBeside block.hash tables
  refine .bind (keeps_updateAccount_stored _ _ _ _) fun _ => ?_
  exact .bind (steady.addWeight _ _) fun _ => steady.putFrontier _ _

theorem lands_commitChange (content : ChangeContent) :
    Lands block.hash (commitChange block now account record content) := by
  unfold commitChange
  refine .after (fun _ => .ofAnswer _) fun height => .storing fun tables => ?_
  have steady := steady_storedBeside block.hash tables
  refine .bind (.read _) fun _ => .bind (steady.subtractWeight _ _) fun _ => ?_
  refine .bind (steady.addWeight _ _) fun _ => ?_
  exact .bind (keeps_updateAccount_stored _ _ _ _) fun _ => steady.moveFrontier _ _

theorem lands_commitTransfer (existing : Option AccountRecord) (content : StateContent)
    (details : BlockDetails) (amount : Amount) (sourceEpoch : Epoch) :
    Lands block.hash (commitTransfer block now existing content details amount sourceEpoch) := by
  unfold commitTransfer
  refine .after (fun _ => .ofAnswer _) fun height => .storing fun tables => ?_
  have steady := steady_storedBeside block.hash tables
  have settles (record : AccountRecord) :
      (settleTransfer block existing content details amount record).Keeps
        (StoredBeside block.hash tables) := by
    have closes : (updateAccount content.account record >>= fun _ =>
        dropFrontier (existing.getD .blank)).Keeps (StoredBeside block.hash tables) :=
      .bind (keeps_updateAccount_stored _ _ _ _) fun _ => steady.dropFrontier _
    unfold settleTransfer
    exact .ite (fun _ => .bind (steady.putReceivable _ _) fun _ => closes) fun _ =>
      .ite (fun _ => .bind (steady.removeReceivable _) fun _ => closes) fun _ => closes
  refine .ite (fun _ => .bind (.read _) fun _ => ?_) fun _ => ?_
  · refine .bind (steady.subtractWeight _ _) fun _ => ?_
    exact .bind (steady.addWeight _ _) fun _ => settles _
  · exact .bind (steady.addWeight _ _) fun _ => settles _

theorem lands_commitUpgrade (existing : Option AccountRecord) (content : StateContent)
    (epoch : Epoch) : Lands block.hash (commitUpgrade block now existing content epoch) := by
  unfold commitUpgrade
  refine .after (fun _ => .ofAnswer _) fun height => .storing fun tables => ?_
  have steady := steady_storedBeside block.hash tables
  exact .bind (keeps_updateAccount_stored _ _ _ _) fun _ => steady.dropFrontier _

theorem lands_commit (block : Block) (entry : Entry) :
    Lands block.hash (entry.commit block now) := by
  cases entry with
  | send account record content => exact lands_commitSend now content
  | receive account record content receivable => exact lands_commitReceive now content receivable
  | opening content receivable => exact lands_commitOpening now content receivable
  | change account record content => exact lands_commitChange now content
  | transfer existing content details amount sourceEpoch =>
      exact lands_commitTransfer now existing content details amount sourceEpoch
  | upgrade existing content epoch => exact lands_commitUpgrade now existing content epoch

variable (constants : LedgerConstants) (hint : Verification)

/-- Whatever the tables hold, an offered block is stored, or blocks and records stay as they are;
and what is parked stays as it is in any case. -/
theorem lands_process (block : Block) : Lands block.hash (process constants now hint block) := by
  intro tables
  rw [run_process]
  cases judge constants hint block tables with
  | error fault => exact .inr (.refl tables)
  | ok judgement =>
      cases judgement with
      | refused receipt => exact .inr (.refl tables)
      | accepted entry =>
          have lands := lands_commit now block entry tables
          simp only [Step.run_bind]
          cases outcome : (entry.commit block now).run tables with
          | mk answer written =>
              rw [outcome] at lands
              cases answer with
              | error fault => exact lands
              | ok done => exact lands

end Offering

/-- Offering a block makes no difference to what is parked. -/
theorem parked_process {constants : LedgerConstants} {now : Timestamp} {hint : Verification}
    {block : Block} {tables written : Tables} {answer : Except Fault Receipt}
    (ran : (process constants now hint block).run tables = (answer, written)) :
    written.parked = tables.parked := by
  have lands := lands_process now constants hint block tables
  rw [ran] at lands
  rcases lands with held | same
  · exact held.parked
  · exact same.parked

/-! ## Undoing a block -/

section Undoing

theorem parked_writeFor {α : Type} (value : Option α) {change : α → Tables → Tables}
    {parked : Table ParkedKey ParkedBlock}
    (keeps : ∀ found tables, (change found tables).parked = tables.parked) :
    (writeFor value change).Keeps fun tables : Tables => tables.parked = parked := by
  cases value with
  | none => exact .pure ()
  | some found => exact .write fun tables held => (keeps found tables).trans held

theorem parked_detach (reversal : Reversal) (parked : Table ParkedKey ParkedBlock) :
    reversal.detach.Keeps fun tables : Tables => tables.parked = parked := by
  have keeps (account : Account) (record : AccountRecord) :
      (updateAccount account record).Keeps fun tables : Tables => tables.parked = parked := by
    refine .write fun tables held => ?_
    split
    · exact held
    · exact held
  unfold Reversal.detach
  refine .bind (keeps _ _) fun _ => .bind (.write fun _ held => held) fun _ => ?_
  refine .bind (parked_writeFor _ fun _ _ => rfl) fun _ => ?_
  exact .bind (parked_writeFor _ fun _ _ => rfl) fun _ => parked_writeFor _ fun _ _ => rfl

/-- Taking back a head writes to every table but that of what is parked. -/
theorem parked_apply (reversal : Reversal) (tables : Tables) :
    (reversal.apply.run tables).2.parked = tables.parked := by
  have steady : Steady fun other : Tables => other.parked = tables.parked :=
    fun _ _ held _ _ parked => parked.trans held
  have keeps : reversal.apply.Keeps fun other : Tables => other.parked = tables.parked := by
    unfold Reversal.apply
    refine .bind (parked_writeFor _ fun _ _ => rfl) fun _ => ?_
    refine .bind (parked_writeFor _ fun _ _ => rfl) fun _ => ?_
    refine .bind (steady.subtractWeight _ _) fun _ => ?_
    cases reversal.regainsWeight with
    | none => exact parked_detach reversal _
    | some part => exact .bind (steady.addWeight _ _) fun _ => parked_detach reversal _
  exact keeps tables rfl

theorem parked_unwind (depth : Nat) (hash : BlockHash) (account : Account) (tables : Tables) :
    (unwind depth hash account tables).store.parked = tables.parked := by
  induction depth generalizing hash account tables with
  | zero => rfl
  | succ depth inductionHypothesis =>
      unfold unwind
      split
      · rfl
      split
      · rfl
      · next head reversal isNext =>
          have applied := parked_apply reversal tables
          split
          · next outcome => rwa [outcome] at applied
          · next outcome =>
              rw [outcome] at applied
              exact (inductionHypothesis _ _ _).trans applied
      · split
        · rfl
        · dsimp only
          split
          · exact inductionHypothesis _ _ _
          · exact (inductionHypothesis _ _ _).trans (inductionHypothesis _ _ _)

theorem parked_rollback (hash : BlockHash) (tables : Tables) :
    (rollback hash tables).store.parked = tables.parked := by
  unfold rollback
  split
  · rfl
  · exact parked_unwind _ _ _ _

end Undoing

end Ledger

end AccountChains
