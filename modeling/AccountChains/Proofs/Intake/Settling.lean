import AccountChains.Proofs.Intake.Permanence
import AccountChains.Proofs.Intake.Strides
import AccountChains.Proofs.Ledger.Answering
import AccountChains.Proofs.Ledger.Occupancy

/-!
Contract: what handling a block costs and leaves behind, on a coherent ledger.

Every block gets a verdict there, so that the worker goes on; only if the ledger holds
`2 ^ 64` blocks less one may it end instead, because it cannot count one more. A block that
is handled is stored, parked or done with. What it frees was parked before, and is
parked no longer. Making room for a forced block never fails and makes the ledger smaller.

Owns: the balance of stored, parked and freed blocks for one handled block, and which
copies of blocks the worker holds on to. Does not own: the queues.
-/

namespace AccountChains

open BlockTable Ledger Tables

namespace Table

variable {κ : Type} {α : Type} [Ord κ] [Std.TransOrd κ] [Std.LawfulEqOrd κ]

theorem size_insert_le (table : Table κ α) (key : κ) (value : α) :
    (table.insert key value).size ≤ table.size + 1 := by
  have inserted := total_insert (fun _ _ => 1) table key value
  rw [size_eq_total, size_eq_total]
  omega

/-- What a test accepts and what it refuses make up a table. -/
theorem size_filter_add_restrict (table : Table κ α) (accepts : κ → Bool) :
    (table.filter accepts).length + (table.restrict fun key _ => !accepts key).size
      = table.size := by
  simp only [filter, restrict, size]
  exact (List.length_eq_length_filter_add _).symm

end Table

/-! ## The ledger -/

namespace Ledger

variable {constants : LedgerConstants} {tables : Tables} {now : Timestamp} {hint : Verification}
  {block : Block}

/-- A block that has got a verdict leaves a coherent ledger behind, with one more block at most,
and with none more if it is refused. -/
theorem coherent_of_answered {receipt : Receipt} {written : Tables} (sound : constants.Sound)
    (coherent : tables.Coherent constants) (named : block.hash ≠ .zero)
    (ran : (process constants now hint block).run tables = (.ok receipt, written)) :
    written.Coherent constants ∧ written.blocks.size ≤ tables.blocks.size + 1 ∧
      (receipt.verdict ≠ .progress → written = tables) := by
  cases processes_of_run coherent named ran with
  | declined => exact ⟨coherent, Nat.le_succ _, fun _ => rfl⟩
  | @appended entry accepted room =>
      exact ⟨coherent.append sound (accepted.admissible coherent sound room _ named),
        Table.size_insert_le _ _ _, fun refused => absurd entry.progresses refused⟩

/-- A block gets no verdict only if the ledger has as many blocks as can be counted. -/
theorem full_of_fault {fault : Fault} {written : Tables} (sound : constants.Sound)
    (coherent : tables.Coherent constants) (named : block.hash ≠ .zero)
    (ran : (process constants now hint block).run tables = (.error fault, written)) :
    fault = .overflow .addition ∧ UInt64.size ≤ tables.blocks.size + 1 := by
  rcases answered_or_full coherent named now hint with
    ⟨receipt, answered⟩ | ⟨overflow, account, record, recorded, full⟩
  · rw [ran] at answered
    exact nomatch answered
  · rw [ran] at overflow
    obtain ⟨head, describes⟩ := coherent.recorded recorded
    have height := coherent.height_le_size sound describes.found
    rw [← describes.blockCount] at height
    exact ⟨Except.error.inj overflow, by omega⟩

end Ledger

/-! ## Handling -/

/-- A ledger after a block has been handled, with the blocks that this has freed. -/
structure Settles (constants : LedgerConstants) (block : Block) (before after : Tables)
    (freed : List ParkedBlock) : Prop where
  coherent : after.Coherent constants
  /-- The block that has been handled is somewhere, or done with. -/
  total : after.blocks.size + after.parked.size + freed.length
    ≤ before.blocks.size + before.parked.size + 1
  /-- A block is done with, unless it is the one that is parked now. -/
  fewer : after.parked.size + freed.length ≤ before.parked.size ∨
    freed = [] ∧ after.parked.size ≤ before.parked.size + 1
  parked : ∀ key waiting, after.parked.get? key = some waiting →
    waiting.block = block ∨ before.parked.get? key = some waiting
  freed : ∀ waiting ∈ freed, ∃ key, before.parked.get? key = some waiting

section Answered

variable {setup : IntakeSetup} {item : QueuedBlock} {now : Timestamp} {store written : Tables}

/-- What follows from a verdict keeps the blocks together. -/
theorem Bench.Disposes.settles {receipt : Receipt} {requeue : Option Requeue}
    {parked : Table ParkedKey ParkedBlock} (sound : setup.constants.Sound)
    (deletes : setup.settings.uncheckedDeletion) (coherent : store.Coherent setup.constants)
    (named : item.block.hash ≠ .zero)
    (ran : (process setup.constants now item.verified item.block).run store
      = (.ok receipt, written))
    (disposes : Bench.Disposes setup.settings item receipt written.parked requeue parked) :
    Settles setup.constants item.block store { written with parked }
      ((requeue.map Requeue.rest).getD []) := by
  obtain ⟨stillCoherent, grown, unchanged⟩ := coherent_of_answered sound coherent named ran
  rw [show written.parked = store.parked from parked_process ran] at disposes
  have reparked := stillCoherent.reparked parked
  cases disposes with
  | leaves =>
      refine ⟨reparked, ?_, .inl le_rfl, fun _ _ => .inr, fun _ none => nomatch none⟩
      simp only [Option.map_none, Option.getD_none, List.length_nil]
      omega
  | parks dependency isGap =>
      have larger := Table.size_insert_le store.parked ⟨dependency, item.hash⟩
        (item.toParked receipt.verified)
      obtain rfl := unchanged (by rcases isGap with isGap | isGap <;> simp [isGap])
      refine ⟨reparked, ?_, .inr ⟨rfl, larger⟩, fun key waiting found => ?_,
        fun _ none => nomatch none⟩
      · simp only [Option.map_none, Option.getD_none, List.length_nil]
        omega
      · rcases Table.of_get?_insert found with ⟨-, rfl⟩ | found
        · exact .inl rfl
        · exact .inr found
  | frees isThere waiting =>
      have split : (store.parked.filter fun key => key.dependency == item.hash).length
          + (store.parked.restrict fun key _ => key.dependency ≠ item.hash).size
          = store.parked.size := by
        simpa [beq_eq_decide] using Table.size_filter_add_restrict store.parked
          fun key => key.dependency == item.hash
      rw [if_pos deletes] at reparked ⊢
      rw [waiting]
      refine ⟨reparked, ?_, .inl ?_, fun key waiting found => ?_, fun waiting member => ?_⟩
      · simp only [List.length_map]
        omega
      · simp only [List.length_map]
        omega
      · rw [Table.get?_restrict, Option.filter_eq_some_iff] at found
        exact .inr found.1
      · obtain ⟨⟨key, freed⟩, isEntry, rfl⟩ := List.mem_map.mp member
        exact ⟨key, (Table.mem_entries_iff _ _ _).mp (List.mem_filter.mp isEntry).1⟩

namespace Processor

/-- What the worker has come to when it has handled a block: it goes on with its batch, with what
it has freed in hand, or it has ended since the ledger is full. -/
inductive Settled (constants : LedgerConstants) (block : Block) (store : Tables) :
    Worker Tables → Prop where
  | full (isFull : UInt64.size ≤ store.blocks.size + 1) :
      Settled constants block store (.crashed (.overflow .addition))
  | done {batch : Batch Tables} (settles : Settles constants block store batch.store []) :
      Settled constants block store (.choosing batch)
  | frees {batch : Batch Tables} {item : QueuedBlock} {requeue : Requeue}
      (settles : Settles constants block store batch.store requeue.rest) :
      Settled constants block store (.requeueing batch item requeue)

theorem settled_of_offered {worker : Worker Tables} (sound : setup.constants.Sound)
    (deletes : setup.settings.uncheckedDeletion) (coherent : store.Coherent setup.constants)
    (named : item.block.hash ≠ .zero) (offered : Offered setup now item store worker) :
    Settled setup.constants item.block store worker := by
  cases offered with
  | crashed ran isCrash =>
      obtain ⟨rfl, isFull⟩ := full_of_fault sound coherent named ran
      obtain rfl := Failure.crash.inj isCrash
      exact .full isFull
  | failed ran => exact nomatch (full_of_fault sound coherent named ran).1
  | settled ran disposes => exact .done (disposes.settles sound deletes coherent named ran)
  | frees ran disposes => exact .frees (disposes.settles sound deletes coherent named ran)

end Processor

end Answered

/-! ## Making room -/

section Forcing

variable {setup : IntakeSetup} {constants : LedgerConstants} {store cleared : Tables}
  {block : Block} {loser : BlockHash}

/-- A block does not ask for the slot of the genesis block, unless it is the genesis block. -/
def Block.SparesGenesis (constants : LedgerConstants) (block : Block) : Prop :=
  block.qualifiedRoot = constants.genesis.qualifiedRoot → block.hash = constants.genesis.hash

theorem Bench.Clears.size_le {removed : Option BlockHash} (sound : constants.Sound)
    (coherent : store.Coherent constants) (spares : block.SparesGenesis constants)
    (clears : Bench.Clears block store removed cleared) :
    cleared.blocks.size ≤ store.blocks.size := by
  cases clears with
  | vacant => exact le_rfl
  | stuck competes | undone competes =>
      have removes := (Bench.unwinds_of_competitor? coherent sound spares competes).removes
      exact removes.size_eq ▸ Nat.le_add_right _ _

/-- On a coherent ledger room can be made. -/
theorem Processor.exists_makeRoom_of_coherent (processor : Processor Tables) (batch : Batch Tables)
    (sound : constants.Sound) (coherent : batch.store.Coherent constants)
    (spares : block.SparesGenesis constants) :
    ∃ removed store later metrics, processor.makeRoom block batch = .ok
      ({ processor with queues := processor.queues.remember removed, metrics },
        { batch with store, events := batch.events ++ later }) ∧
      Bench.Clears block batch.store removed store ∧ later.filterMap Event.handle? = [] := by
  obtain ⟨occupant, leads⟩ := exists_successor? batch.store block.qualifiedRoot
  unfold makeRoom Bench.replace
  cases competes : Bench.competitor? batch.store block with
  | error fault => simp [Bench.competitor?, leads, bind, Except.bind, pure, Except.pure] at competes
  | ok competitor =>
      cases competitor with
      | none =>
          refine ⟨none, batch.store, [], processor.metrics, ?_, .vacant (by simp [competes]), rfl⟩
          rw [List.append_nil]
          rfl
      | some loser =>
          have completes :=
            (Bench.unwinds_of_competitor? coherent sound spares competes).completes
          dsimp only
          rw [completes]
          exact ⟨some loser, _, _, _, rfl, .undone competes completes, rfl⟩

/-- What comes after room has been made is what handling the block comes to. -/
theorem Processor.Settled.of_smaller {worker : Worker Tables}
    (smaller : cleared.blocks.size ≤ store.blocks.size) (parked : cleared.parked = store.parked)
    (settled : Settled constants block cleared worker) : Settled constants block store worker := by
  have transfers {after : Tables} {freed : List ParkedBlock}
      (settles : Settles constants block cleared after freed) :
      Settles constants block store after freed := by
    obtain ⟨coherent, total, fewer, isParked, isFreed⟩ := settles
    rw [parked] at total fewer isParked isFreed
    exact ⟨coherent, by omega, fewer, isParked, isFreed⟩
  cases settled with
  | full isFull => exact .full (by omega)
  | done settles => exact .done (transfers settles)
  | frees settles => exact .frees (transfers settles)

end Forcing

/-! ## The copies that the worker holds on to -/

/-- The copies of blocks that a batch is going to report. -/
def Batch.noted {σ : Type} (batch : Batch σ) : List Handle := batch.events.filterMap Event.handle?

namespace Bench

/-- Whatever follows from a verdict, no other block is reported by its copy. -/
theorem exists_events_follow (settings : IntakeSettings) (now : Timestamp) (item : QueuedBlock)
    (receipt : Receipt) (bench : Bench Tables) : ∃ later,
    (bench.follow settings now item receipt).2.events = bench.events ++ later ∧
      ∀ handle ∈ later.filterMap Event.handle?, handle = item.handle := by
  have took (taking : Bench Tables) :
      (taking.takeParked settings item.hash).2.events = taking.events := by
    obtain ⟨requeue, parked, isTaken⟩ := exists_takeParked settings item.hash taking
    rw [isTaken]
  unfold follow
  split
  · dsimp only
    rw [took]
    split
    · exact ⟨[.live item.handle .progress], rfl, by simp [Event.handle?]⟩
    · exact ⟨[], (List.append_nil _).symm, by simp⟩
  · exact ⟨[.gap item.hash item.block.previous], rfl, by simp [Event.handle?]⟩
  · exact ⟨[.gap item.hash (missingSource item.block)], rfl, by simp [Event.handle?]⟩
  · split
    · exact ⟨[], (List.append_nil _).symm, by simp⟩
    · exact ⟨[], by rw [took, List.append_nil], by simp⟩
  · split
    · exact ⟨[], (List.append_nil _).symm, by simp⟩
    · exact ⟨[.fork item.handle], rfl, by simp [Event.handle?]⟩
  · exact ⟨[.rejected item.hash _], rfl, by simp [Event.handle?]⟩

theorem exists_events_offer (setup : IntakeSetup) (now : Timestamp) (item : QueuedBlock)
    (bench : Bench Tables) : ∃ later,
    (bench.offer setup now item).2.events = bench.events ++ later ∧
      ∀ handle ∈ later.filterMap Event.handle?, handle = item.handle := by
  unfold offer
  cases (process setup.constants now item.verified item.block).run bench.store with
  | mk answer written =>
      cases answer with
      | error fault => exact ⟨[], (List.append_nil _).symm, by simp⟩
      | ok receipt =>
          obtain ⟨later, isLater, ofItem⟩ := exists_events_follow setup.settings now item receipt
            { bench with store := written, metrics := bench.metrics.recordVerdict receipt.verdict }
          refine ⟨later, ?_, ofItem⟩
          dsimp only
          split
          all_goals
            next follows =>
            rw [← isLater, follows]

end Bench

namespace Processor

variable {setup : IntakeSetup} {batch : Batch Tables} {taken : Queues.Taken} {handle : Handle}

variable (setup) in
/-- When the worker has handled a block, it holds on to no other copies than before. -/
theorem handles_offer (processor : Processor Tables) (now : Timestamp) (item : QueuedBlock)
    (holds : handle ∈ (processor.offer setup now item batch).worker.handles) :
    handle = item.handle ∨ handle ∈ batch.noted := by
  obtain ⟨later, isLater, ofItem⟩ := Bench.exists_events_offer setup now item
    ⟨batch.store, batch.events, processor.metrics⟩
  unfold offer at holds
  cases outcome : Bench.offer setup now item ⟨batch.store, batch.events, processor.metrics⟩ with
  | mk answer bench =>
      rw [outcome] at holds isLater
      have noted (reported : handle ∈ bench.events.filterMap Event.handle?) :
          handle = item.handle ∨ handle ∈ batch.noted := by
        rw [isLater, List.filterMap_append, List.mem_append] at reported
        exact reported.symm.imp_left (ofItem handle)
      cases answer with
      | error failure =>
          cases failure with
          | error cause => exact noted holds
          | crash cause => exact nomatch (holds : handle ∈ [])
      | ok answer =>
          obtain ⟨receipt, requeue⟩ := answer
          cases requeue with
          | none => exact noted holds
          | some requeue => exact (List.mem_cons.mp holds).elim .inl noted

variable (setup) in
/-- On a coherent ledger a block is handled, unless the ledger is full. The worker holds on to no
other copies than before. -/
theorem exists_settled (processor : Processor Tables) (now : Timestamp)
    (sound : setup.constants.Sound) (deletes : setup.settings.uncheckedDeletion)
    (coherent : batch.store.Coherent setup.constants) (named : taken.handle.block.hash ≠ .zero)
    (spares : ∀ block, taken = .forced block → block.block.SparesGenesis setup.constants) :
    ∃ rolledBack worker metrics, processor.handle setup now batch taken
        = { processor with queues := { processor.queues with rolledBack }, worker, metrics } ∧
      Settled setup.constants taken.handle.block batch.store worker ∧
      ∀ handle ∈ worker.handles, handle = taken.handle ∨ handle ∈ batch.noted := by
  cases taken with
  | ready item =>
      obtain ⟨worker, metrics, isOffer, offered⟩ := offered_offer setup processor now item batch
      refine ⟨_, worker, metrics, isOffer,
        settled_of_offered sound deletes coherent named offered, fun handle holds => ?_⟩
      refine handles_offer setup processor now item ?_
      rw [isOffer]
      exact holds
  | forced block =>
      have isSpared := spares block rfl
      obtain ⟨removed, store, later, metrics, makesRoom, clears, silent⟩ :=
        exists_makeRoom_of_coherent processor batch sound coherent isSpared
      obtain ⟨worker, counted, isOffer, offered⟩ := offered_offer setup
        { processor with queues := processor.queues.remember removed, metrics } now
        (.plain block now) { batch with store, events := batch.events ++ later }
      obtain ⟨rolledBack, isRemembered⟩ := processor.queues.exists_remember removed
      rw [isRemembered] at makesRoom isOffer
      refine ⟨rolledBack, worker, counted, ?_, ?_, fun handle holds => ?_⟩
      · unfold handle
        simp only [makesRoom]
        exact isOffer
      · have plainNamed : (QueuedBlock.plain block now).block.hash ≠ .zero := named
        have settled := settled_of_offered sound deletes (clears.coherent coherent sound isSpared)
          plainNamed offered
        exact settled.of_smaller (clears.size_le sound coherent isSpared) clears.parked_eq
      · have same : Batch.noted { batch with store, events := batch.events ++ later }
            = batch.noted := by
          rw [Batch.noted, List.filterMap_append, silent, List.append_nil]
          rfl
        rw [← same]
        refine handles_offer setup
          { processor with queues := { processor.queues with rolledBack }, metrics } now
          (.plain block now) ?_
        rw [isOffer]
        exact holds

end Processor

end AccountChains
