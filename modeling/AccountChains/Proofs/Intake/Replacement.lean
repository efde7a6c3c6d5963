import AccountChains.Proofs.Intake.Arrival
import AccountChains.Proofs.Ledger.RollingBack
import AccountChains.Proofs.Ledger.Slots

/-!
Contract: what a forced block does to the block that has its slot.

The slot of the forced block leads to its competitor, which is undone with everything
that depends on it, and then the forced block takes the slot. All of this is one step
of the worker. The competitor is remembered, and as long as it is, it is turned away.

Owns: the ledger without a block, and the step in which the worker handles a forced
block. Does not own: forced blocks whose slot is free, or that the ledger refuses.
-/

namespace AccountChains

open BlockTable Ledger Tables

namespace Ledger

variable {constants : LedgerConstants} {tables reduced : Tables} {hash : BlockHash}
  {stored : StoredBlock}

/-- The ledger without a block and without everything that depends on it. -/
structure Without (constants : LedgerConstants) (tables : Tables) (hash : BlockHash)
    (reduced : Tables) : Prop where
  coherent : reduced.Coherent constants
  found_iff : ∀ other stored, reduced.blocks.get? other = some stored ↔
    ¬ Relation.ReflTransGen (DependsOn constants.genesis.hash tables.blocks) other hash ∧
      tables.blocks.get? other = some stored
  parked : reduced.parked = tables.parked
  version : reduced.version = tables.version

/-- Heads that are taken away, all of them dependents of a block, leave the ledger without the
block. -/
theorem Removes.without {undone : List BlockHash}
    (removes : Removes constants tables undone reduced) (coherent : tables.Coherent constants)
    (sound : constants.Sound) (removed : hash ∈ undone)
    (dependents : ∀ other ∈ undone,
      Relation.ReflTransGen (DependsOn constants.genesis.hash tables.blocks) other hash) :
    Without constants tables hash reduced := by
  obtain ⟨parked, version⟩ := removes.outside
  refine ⟨removes.coherent_final sound coherent, ?_, parked, version⟩
  intro other block
  have isRemoved : other ∈ undone ↔
      Relation.ReflTransGen (DependsOn constants.genesis.hash tables.blocks) other hash := by
    refine ⟨dependents other, fun depends => ?_⟩
    rcases Relation.reflTransGen_iff_eq_or_transGen.mp depends with rfl | depends
    · exact removed
    · exact (removes.dependents_first sound coherent removed depends).1
  rw [removes.found_iff, isRemoved]

/-- Undoing a block leaves the ledger without it. -/
theorem Reachable.without_rollback (reachable : Reachable constants tables)
    (sound : constants.Sound) (found : tables.blocks.get? hash = some stored)
    (notGenesis : hash ≠ constants.genesis.hash) :
    Without constants tables hash (rollback hash tables).store := by
  have coherent := reachable.coherent sound
  have unwinds := rollback_unwinds coherent sound found notGenesis
  exact unwinds.removes.without coherent sound
    (unwinds.removes.mem_of_absent found unwinds.gone) unwinds.dependents

/-- There is one ledger without a block. -/
theorem Without.unique {other : Tables} (without : Without constants tables hash reduced)
    (alsoWithout : Without constants tables hash other) : reduced = other := by
  refine without.coherent.eq_of_blocks alsoWithout.coherent ?_
    (without.parked.trans alsoWithout.parked.symm) (without.version.trans alsoWithout.version.symm)
  ext1 probe
  ext1 block
  rw [without.found_iff, alsoWithout.found_iff]

/-- A block that was added last can be taken away again. -/
theorem Grows.removes {offer : Offer} {next : Tables} (grows : Grows constants tables offer next)
    (coherent : tables.Coherent constants) (sound : constants.Sound) (named : offer.hash ≠ .zero) :
    Removes constants next [offer.hash] tables := by
  obtain ⟨stored, hint, rfl, fits, rfl⟩ := grows.fits coherent sound named
  have admissible := fits.suits.admissible coherent sound fits.vacant named
  have found : (tables.append stored).blocks.get? stored.hash = some stored :=
    Tables.found_append.mpr (.inl ⟨rfl, rfl⟩)
  have notGenesis := coherent.fresh_ne_genesis admissible
  have nextCoherent := coherent.append sound admissible
  have removes := (rollback_unwinds nextCoherent sound found notGenesis).removes
  rw [rollback_restores sound nextCoherent coherent found notGenesis
    (coherent.append_loose sound admissible)
    (Table.erase_insert_of_absent admissible.fresh _) rfl rfl] at removes
  exact removes

/-- A block that makes progress becomes the head of its account, and no other block changes. -/
theorem Grows.head {offer : Offer} {final : Tables} (grows : Grows constants reduced offer final)
    (coherent : reduced.Coherent constants) (sound : constants.Sound) (named : offer.hash ≠ .zero) :
    (∃ sideband record, final.blocks.get? offer.hash = some ⟨offer.block, sideband⟩ ∧
      final.accounts.get? sideband.account = some record ∧ record.head = offer.hash) ∧
    ∀ other stored, other ≠ offer.hash →
      (final.blocks.get? other = some stored ↔ reduced.blocks.get? other = some stored) := by
  obtain ⟨sideband, -, -, -, rfl⟩ := grows.suits coherent sound named
  refine ⟨⟨sideband, .after (reduced.accounts.get? sideband.account) ⟨offer.block, sideband⟩,
    Tables.found_append.mpr (.inl ⟨rfl, rfl⟩), Table.get?_insert_self _ _ _, rfl⟩, ?_⟩
  intro other stored different
  have notNew : other ≠ StoredBlock.hash ⟨offer.block, sideband⟩ := different
  rw [Tables.found_append]
  constructor
  · rintro (⟨same, -⟩ | ⟨-, kept⟩)
    · exact absurd same notNew
    · exact kept
  · exact fun kept => .inr ⟨notNew, kept⟩

end Ledger

/-! ## Handling a forced block -/

/-- An event does not report that blocks were driven out. -/
def Event.Spares (event : Event) : Prop := ∀ winner undone, event ≠ .rolledBack winner undone

namespace Bench

variable {setup : IntakeSetup} {store final : Tables} {now : Timestamp} {item : QueuedBlock}

/-- Taking up what is parked under a block changes nothing but what is parked. -/
theorem exists_takeParked (settings : IntakeSettings) (dependency : BlockHash)
    (bench : Bench Tables) : ∃ requeue parked, bench.takeParked settings dependency
      = (.ok requeue, { bench with store := { bench.store with parked } }) := by
  unfold takeParked
  simp only [parked_eq_filter]
  cases bench.store.parked.filter fun key => key.dependency == dependency with
  | nil => exact ⟨none, bench.store.parked, rfl⟩
  | cons entry rest =>
      simp only [foldl_removeParked]
      split
      · exact ⟨_, _, rfl⟩
      · exact ⟨_, bench.store.parked, rfl⟩

/-- A block that makes progress is taken in, whatever else waits for it. -/
theorem exists_offer (events : List Event) (metrics : Metrics)
    (grows : Grows setup.constants store ⟨now, item.verified, item.block⟩ final) :
    ∃ receipt requeue parked later counted, offer setup now item ⟨store, events, metrics⟩
      = (.ok (receipt, requeue), ⟨{ final with parked }, events ++ later, counted⟩) ∧
    ∀ event ∈ later, event.Spares := by
  obtain ⟨receipt, returned, progresses⟩ := grows
  simp only at returned
  unfold offer
  rw [returned]
  cases isLive : item.modified.isWithin setup.settings.liveWindowSecs now with
  | true =>
      simp only [follow, progresses, isLive, if_true]
      obtain ⟨requeue, parked, took⟩ := exists_takeParked setup.settings item.hash
        (note (.live item.handle .progress) ⟨final, events, metrics.recordVerdict .progress⟩)
      rw [took]
      exact ⟨receipt, requeue, parked, [.live item.handle .progress], _, rfl,
        by simp [Event.Spares]⟩
  | false =>
      simp only [follow, progresses, isLive, Bool.false_eq_true, if_false]
      obtain ⟨requeue, parked, took⟩ := exists_takeParked setup.settings item.hash
        ⟨final, events, metrics.recordVerdict .progress⟩
      rw [took]
      exact ⟨receipt, requeue, parked, [], _, by rw [List.append_nil], by simp⟩

/-- The competitor of a block is undone, and the slot is reported. -/
theorem exists_replace {block : Block} {loser : BlockHash} (events : List Event)
    (metrics : Metrics) (competes : competitor? store block = .ok (some loser))
    (completes : (rollback loser store).outcome = .ok ()) :
    ∃ counted, replace block ⟨store, events, metrics⟩ = (.ok (some loser),
      ⟨(rollback loser store).store,
        events ++ [.rolledBack block.hash (rollback loser store).undone], counted⟩) := by
  unfold replace
  rw [competes]
  simp only [completes]
  exact ⟨_, rfl⟩

/-- The competitor of a block is the other block that has its slot. -/
theorem competitor?_eq {constants : LedgerConstants} {loser : BlockHash} {stored : StoredBlock}
    {winner : Block} (reachable : Reachable constants store) (sound : constants.Sound)
    (occupied : store.blocks.get? loser = some stored)
    (sameSlot : stored.block.qualifiedRoot = winner.qualifiedRoot)
    (different : loser ≠ winner.hash) : competitor? store winner = .ok (some loser) := by
  have leads := reachable.successor?_eq sound occupied
  rw [sameSlot] at leads
  simp [competitor?, leads, different, bind, Except.bind, pure, Except.pure]

end Bench

namespace RolledBack

theorem contains_insert (memory : RolledBack) (hash : BlockHash) (hasRoom : memory.capacity ≠ 0) :
    (memory.insert hash).contains hash := by
  unfold insert
  split
  · next isKnown => simpa [hasRoom] using isKnown
  · simp [contains, Table.contains]

end RolledBack

namespace Processor

variable {setup : IntakeSetup} {processor : Processor Tables} {batch : Batch Tables}
  {hash : BlockHash}

/-- A block is handed in as a plain one, or with something that is known about it. -/
inductive HandsIn (hash : BlockHash) : Action → Prop where
  | add {block : Block} (isBlock : block.hash = hash) (arrival : Timestamp) :
      HandsIn hash (.add block arrival)
  | addKnown {known : ParkedBlock} (isBlock : known.block.hash = hash) (now : Timestamp) :
      HandsIn hash (.addKnown known now)

/-- Nothing has changed but counts and shared copies: not the queues, nor the ledger and those who
write to it, nor what has been reported. -/
structure Unmoved (before after : Processor Tables) : Prop where
  queues : after.queues = before.queues
  store : after.store = before.store
  worker : after.worker = before.worker
  direct : after.direct = before.direct
  emitted : after.emitted = before.emitted

/-- Handing in a block has no effect. -/
def Ignores (setup : IntakeSetup) (hash : BlockHash) (processor : Processor Tables) : Prop :=
  ∀ action, HandsIn hash action → processor.Unmoved (processor.act setup action)

theorem unmoved_of_refused {item : QueuedBlock} {copies : Nat}
    (refused : processor.queues.refuses item.hash) : processor.Unmoved
      ((enqueue setup item { processor with copies }).toOption.getD processor) := by
  unfold enqueue
  -- Both without enough work and with it, the block gets into no queue.
  split
  · exact ⟨rfl, rfl, rfl, rfl, rfl⟩
  · exact ⟨rfl, rfl, rfl, rfl, rfl⟩

/-- A block that is remembered as driven out is turned away, however it is handed in. -/
theorem ignores_of_contains (remembered : processor.queues.rolledBack.contains hash) :
    processor.Ignores setup hash := by
  have refused : processor.queues.refuses hash := by
    simp [Queues.refuses, remembered]
  intro action handsIn
  cases handsIn with
  | add isBlock arrival =>
      subst isBlock
      exact unmoved_of_refused refused
  | @addKnown known isBlock now =>
      subst isBlock
      have parks : ∃ given, given.block = known.block ∧
          processor.addKnown setup known now = processor.addParked setup given := by
        unfold addKnown
        split
        · exact ⟨{ known with modified := now }, rfl, rfl⟩
        · exact ⟨known, rfl, rfl⟩
      obtain ⟨given, sameBlock, handed⟩ := parks
      have refusedGiven : processor.queues.refuses given.block.hash := sameBlock ▸ refused
      simp only [act, handed]
      exact unmoved_of_refused refusedGiven

/-- What the step leaves behind in which a forced block takes the slot of another block. -/
structure Replaced (constants : LedgerConstants) (winner : Block) (loser : BlockHash)
    (final : Tables) (before after : Batch Tables) : Prop where
  /-- The ledger is the reduced one with the forced block, but for what is parked. -/
  tables : ∃ parked, after.store = { final with parked }
  isHead : ∃ sideband record, after.store.blocks.get? winner.hash = some ⟨winner, sideband⟩ ∧
    after.store.accounts.get? sideband.account = some record ∧ record.head = winner.hash
  /-- The loser and its dependents are gone, every other block is there as before. -/
  others : ∀ other stored, other ≠ winner.hash → (after.store.blocks.get? other = some stored ↔
    ¬ Relation.ReflTransGen (DependsOn constants.genesis.hash before.store.blocks) other loser ∧
      before.store.blocks.get? other = some stored)
  /-- One event names the winner and lists what was removed. -/
  reported : ∃ undone later,
    after.events = before.events ++ .rolledBack winner.hash undone :: later ∧
    (∀ event ∈ later, event.Spares) ∧ undone.Nodup ∧
    ∀ removed, removed ∈ undone ↔ (∃ stored, before.store.blocks.get? removed = some stored) ∧
      Relation.ReflTransGen (DependsOn constants.genesis.hash before.store.blocks) removed loser

variable (processor batch) in
/-- A block that makes progress is in the ledger of the batch afterwards, and the batch is open. -/
theorem exists_offered {final : Tables} {now : Timestamp} (item : QueuedBlock)
    (grows : Grows setup.constants batch.store ⟨now, item.verified, item.block⟩ final) :
    ∃ after parked later, (processor.offer setup now item batch).worker.batch? = some after ∧
      after.store = { final with parked } ∧ after.events = batch.events ++ later ∧
      (∀ event ∈ later, event.Spares) ∧
      (processor.offer setup now item batch).queues = processor.queues := by
  obtain ⟨receipt, requeue, parked, later, counted, offered, spares⟩ :=
    Bench.exists_offer batch.events processor.metrics grows
  unfold offer
  rw [offered]
  cases requeue with
  | none => exact ⟨_, parked, later, rfl, rfl, rfl, spares, rfl⟩
  | some requeue => exact ⟨_, parked, later, rfl, rfl, rfl, spares, rfl⟩

section Forcing

variable {winner : Handle} {loser : BlockHash} {stored : StoredBlock} {reduced final : Tables}

variable (processor) in
/-- Undoing the competitor makes room for a forced block. -/
theorem exists_makeRoom {block : Block} (reachable : Reachable setup.constants batch.store)
    (sound : setup.constants.Sound)
    (occupied : batch.store.blocks.get? loser = some stored)
    (sameSlot : stored.block.qualifiedRoot = block.qualifiedRoot)
    (different : loser ≠ block.hash) (notGenesis : loser ≠ setup.constants.genesis.hash) :
    ∃ metrics, processor.makeRoom block batch = .ok
      ({ processor with
          metrics
          queues := { processor.queues with
            rolledBack := processor.queues.rolledBack.insert loser } },
        { batch with
          store := (rollback loser batch.store).store
          events := batch.events
            ++ [.rolledBack block.hash (rollback loser batch.store).undone] }) := by
  obtain ⟨metrics, replaced⟩ := Bench.exists_replace batch.events processor.metrics
    (Bench.competitor?_eq reachable sound occupied sameSlot different)
    (rollback_unwinds (reachable.coherent sound) sound occupied notGenesis).completes
  unfold makeRoom
  rw [replaced]
  exact ⟨metrics, rfl⟩

/-- A forced block takes the slot of another block if the ledger without that block takes it in.
In one step the other block and its dependents are undone and reported, and the forced block
becomes the head of its account. The other block is remembered, and turned away while it is. -/
theorem forced_replaces (moment : Moment)
    (handling : processor.worker = .handling batch (.forced winner))
    (reachable : Reachable setup.constants batch.store) (sound : setup.constants.Sound)
    (occupied : batch.store.blocks.get? loser = some stored)
    (sameSlot : stored.block.qualifiedRoot = winner.block.qualifiedRoot)
    (different : loser ≠ winner.block.hash) (notGenesis : loser ≠ setup.constants.genesis.hash)
    (without : Without setup.constants batch.store loser reduced)
    (grows : Grows setup.constants reduced ⟨moment.now, .unknown, winner.block⟩ final)
    (named : winner.block.hash ≠ .zero) :
    ∃ next after, processor.advance setup moment = some next ∧ next.worker.batch? = some after ∧
      Replaced setup.constants winner.block loser final batch after ∧
      next.queues.rolledBack = processor.queues.rolledBack.insert loser ∧
      (processor.queues.rolledBack.capacity ≠ 0 → next.queues.rolledBack.contains loser) ∧
      ∀ later : Processor Tables, later.queues.rolledBack.contains loser →
        later.Ignores setup loser := by
  obtain rfl := without.unique (reachable.without_rollback sound occupied notGenesis)
  have coherent := reachable.coherent sound
  have undoes :=
    (rollback_unwinds coherent sound occupied notGenesis).undoesDependents sound coherent occupied
  obtain ⟨metrics, makesRoom⟩ :=
    processor.exists_makeRoom reachable sound occupied sameSlot different notGenesis
  have advances : processor.advance setup moment
      = some (processor.handle setup moment.now batch (.forced winner)) := by
    unfold advance
    rw [handling]
  simp only [handle, makesRoom] at advances
  obtain ⟨after, parked, later, isOpen, isFinal, isReported, spares, sameQueues⟩ :=
    exists_offered _ ⟨(rollback loser batch.store).store, _, batch.processed⟩
      (.plain winner moment.now) grows
  obtain ⟨isHead, others⟩ := grows.head without.coherent sound named
  refine ⟨_, after, advances, isOpen, ?_, ?_, ?_, ?_⟩
  · refine ⟨⟨parked, isFinal⟩, ?_, ?_, ?_⟩
    · rw [isFinal]
      exact isHead
    · intro other block notWinner
      rw [isFinal]
      exact (others other block notWinner).trans (without.found_iff other block)
    · exact ⟨_, later, isReported.trans (List.append_assoc ..), spares, undoes.once,
        undoes.undone_iff⟩
  · rw [sameQueues]
  · rw [sameQueues]
    exact RolledBack.contains_insert _ _
  · exact fun later remembered => ignores_of_contains remembered

end Forcing

section Development

/-- The worker is about to handle a forced transfer, whose slot a received send has. -/
def devForced : Processor Tables :=
  { devFresh with worker := .handling ⟨devReceived, [], 0⟩ (.forced ⟨0, devTransfer⟩) }

/-- The send is stored, and without it only the genesis block is left. -/
theorem devReceived_without : (∃ sideband,
    devReceived.blocks.get? devSend.hash = some ⟨devSend, sideband⟩) ∧
      Without .dev devReceived devSend.hash (started .dev .zero .empty none) := by
  have firstCoherent := coherent_started dev_sound .zero .empty none
  have sentCoherent := reachable_devSent.coherent dev_sound
  have sends : Grows .dev (started .dev .zero .empty none) ⟨.zero, .valid, devSend⟩ devSent :=
    ⟨_, devSend_progresses, rfl⟩
  have opens : Grows .dev devSent ⟨.zero, .valid, devOpening⟩ devReceived :=
    ⟨_, devOpening_progresses, rfl⟩
  obtain ⟨sendBand, sendFound⟩ := sends.found_next firstCoherent dev_sound dev_named.1
  obtain ⟨openingBand, openingFound⟩ := opens.found_next sentCoherent dev_sound dev_named.2
  have removesOpening := opens.removes sentCoherent dev_sound dev_named.2
  have removesBoth := removesOpening.append (sends.removes firstCoherent dev_sound dev_named.1)
  have depends : DependsOn LedgerConstants.dev.genesis.hash devReceived.blocks devOpening.hash
      devSend.hash :=
    ⟨_, openingFound, .inr ⟨(removesOpening.stored_of_mem List.mem_cons_self).1, rfl⟩⟩
  refine ⟨⟨sendBand, ?_⟩, removesBoth.without (reachable_devReceived.coherent dev_sound) dev_sound
    (List.mem_append_right _ List.mem_cons_self) fun other member => ?_⟩
  · have opened : Progresses .dev devSent [⟨.zero, .valid, devOpening⟩] devReceived :=
      .next dev_named.2 opens (.done devReceived)
    exact opened.found sentCoherent dev_sound sendFound
  · rcases List.mem_append.mp member with opening | send
    · exact List.mem_singleton.mp opening ▸ .single depends
    · exact List.mem_singleton.mp send ▸ .refl

theorem devSend_ne_devTransfer : devSend.hash ≠ devTransfer.hash := by
  decide +kernel

theorem devSend_slot : devSend.qualifiedRoot = devTransfer.qualifiedRoot := by
  simp only [devSend, devTransfer, SecretKey.block, Block.qualifiedRoot, Block.root,
    Block.previous, Content.root, Content.previous]

theorem devForced_replaces : ∃ final next after,
    Grows .dev (started .dev .zero .empty none) ⟨.zero, .unknown, devTransfer⟩ final ∧
      devForced.advance devSetup ⟨.zero, 0⟩ = some next ∧ next.worker.batch? = some after ∧
      Replaced devSetup.constants devTransfer devSend.hash final ⟨devReceived, [], 0⟩ after ∧
      next.queues.rolledBack = devForced.queues.rolledBack.insert devSend.hash ∧
      (devForced.queues.rolledBack.capacity ≠ 0 →
        next.queues.rolledBack.contains devSend.hash) ∧
      ∀ later : Processor Tables, later.queues.rolledBack.contains devSend.hash →
        later.Ignores devSetup devSend.hash := by
  obtain ⟨⟨sideband, found⟩, without⟩ := devReceived_without
  obtain ⟨named, final, grows⟩ := devReturned_progresses.head
  have handling : devForced.worker
      = .handling ⟨devReceived, [], 0⟩ (.forced ⟨0, devTransfer⟩) := rfl
  have reachable : Reachable devSetup.constants devReceived := reachable_devReceived
  obtain ⟨next, after, rest⟩ := forced_replaces ⟨.zero, 0⟩ handling reachable dev_sound found
    devSend_slot devSend_ne_devTransfer devSend_ne_genesis without grows named
  exact ⟨final, next, after, grows, rest⟩

end Development

end Processor

end AccountChains
