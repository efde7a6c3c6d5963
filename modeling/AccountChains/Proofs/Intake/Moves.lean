import AccountChains.Intake.Schedule
import AccountChains.Proofs.Intake.Checking
import AccountChains.Proofs.Intake.Handling

/-!
Contract: what one step of one thread can do to an intake.

A step brings a block to the queues, forces one, takes some out to be checked or puts
them back, handles a block, queues again one that was parked, or opens and closes a
transaction. For each of these it is said once what is left behind, with the guards
that let it happen; an invariant of the intake is then proved by cases on `Moves`, and
nothing has to be unfolded for it.

Owns: the outcomes of the parts of a step, `Moves`, that every action is one, and logs that
are kept along a run. Does not own: any invariant.
-/

namespace AccountChains

open Ledger Tables

/-! ## Handling a block -/

namespace Bench

variable {setup : IntakeSetup} {bench : Bench Tables} {item : QueuedBlock} {now : Timestamp}

/-- What handling a block means for what is parked, and what is to be queued again. -/
inductive Disposes (settings : IntakeSettings) (item : QueuedBlock) (receipt : Receipt)
    (parked : Table ParkedKey ParkedBlock) :
    Option Requeue → Table ParkedKey ParkedBlock → Prop where
  | leaves (refused : receipt.verdict ≠ .progress) :
      Disposes settings item receipt parked none parked
  | parks (dependency : BlockHash)
      (isGap : receipt.verdict = .gapPrevious ∨ receipt.verdict = .gapSource) :
      Disposes settings item receipt parked none
        (parked.insert ⟨dependency, item.hash⟩ (item.toParked receipt.verified))
  | frees {requeue : Option Requeue}
      (isThere : receipt.verdict = .progress ∨ receipt.verdict = .old)
      (waiting : (requeue.map Requeue.rest).getD []
        = (parked.filter fun key => key.dependency == item.hash).map Prod.snd) :
      Disposes settings item receipt parked requeue
        (if settings.uncheckedDeletion then
          parked.restrict fun key _ => key.dependency ≠ item.hash else parked)

/-- What is parked under a block is taken up, and taken away if the settings say so. -/
theorem takeParked_eq_ite (settings : IntakeSettings) (dependency : BlockHash)
    (bench : Bench Tables) : ∃ requeue : Option Requeue,
      bench.takeParked settings dependency = (.ok requeue, { bench with
        store := { bench.store with
          parked := if settings.uncheckedDeletion then
            bench.store.parked.restrict fun key _ => key.dependency ≠ dependency
            else bench.store.parked } }) ∧
      (requeue.map Requeue.rest).getD []
        = (bench.store.parked.filter fun key => key.dependency == dependency).map Prod.snd := by
  by_cases deletes : settings.uncheckedDeletion
  · simp only [if_pos deletes]
    exact takeParked_eq settings deletes bench dependency
  · unfold takeParked
    simp only [parked_eq_filter, if_neg deletes]
    cases bench.store.parked.filter fun key => key.dependency == dependency with
    | nil => exact ⟨none, rfl, rfl⟩
    | cons entry rest => exact ⟨_, rfl, rfl⟩

theorem disposes_follow (settings : IntakeSettings) (now : Timestamp) (item : QueuedBlock)
    (receipt : Receipt) (bench : Bench Tables) : ∃ requeue parked events metrics,
      bench.follow settings now item receipt
        = (.ok requeue, ⟨{ bench.store with parked }, events, metrics⟩) ∧
      Disposes settings item receipt bench.store.parked requeue parked := by
  unfold follow
  cases verdict : receipt.verdict with
  | progress =>
      dsimp only
      split
      all_goals
        obtain ⟨requeue, took, waiting⟩ := takeParked_eq_ite settings item.hash _
        exact ⟨requeue, _, _, _, took, .frees (.inl verdict) waiting⟩
  | gapPrevious =>
      exact ⟨none, _, _, _, rfl, .parks _ (.inl verdict)⟩
  | gapSource =>
      exact ⟨none, _, _, _, rfl, .parks _ (.inr verdict)⟩
  | old =>
      dsimp only
      split
      · exact ⟨none, _, _, _, rfl, .leaves (by simp [verdict])⟩
      · obtain ⟨requeue, took, waiting⟩ := takeParked_eq_ite settings item.hash bench
        exact ⟨requeue, _, _, _, took, .frees (.inr verdict) waiting⟩
  | fork =>
      dsimp only
      split
      · exact ⟨none, _, _, _, rfl, .leaves (by simp [verdict])⟩
      · exact ⟨none, _, _, _, rfl, .leaves (by simp [verdict])⟩
  | _ => exact ⟨none, _, _, _, rfl, .leaves (by simp [verdict])⟩

/-- What offering a block comes to: an answer, and what the transaction sees then. -/
inductive Offers (setup : IntakeSetup) (now : Timestamp) (item : QueuedBlock) (store : Tables) :
    Except Failure (Receipt × Option Requeue) → Tables → Prop where
  | failed {fault : Fault} {written : Tables}
      (ran : (process setup.constants now item.verified item.block).run store
        = (.error fault, written)) :
      Offers setup now item store (.error (.ofFault fault)) written
  | answered {receipt : Receipt} {written : Tables} {requeue : Option Requeue}
      {parked : Table ParkedKey ParkedBlock}
      (ran : (process setup.constants now item.verified item.block).run store
        = (.ok receipt, written))
      (disposes : Disposes setup.settings item receipt written.parked requeue parked) :
      Offers setup now item store (.ok (receipt, requeue)) { written with parked }

theorem offers_offer (setup : IntakeSetup) (now : Timestamp) (item : QueuedBlock)
    (bench : Bench Tables) : Offers setup now item bench.store (bench.offer setup now item).1
      (bench.offer setup now item).2.store := by
  unfold offer
  cases ran : (process setup.constants now item.verified item.block).run bench.store with
  | mk answer written =>
      cases answer with
      | error fault => exact .failed ran
      | ok receipt =>
          obtain ⟨requeue, parked, events, metrics, follows, disposes⟩ :=
            disposes_follow setup.settings now item receipt { bench with
              store := written, metrics := bench.metrics.recordVerdict receipt.verdict }
          simp only [follows]
          exact .answered ran disposes

/-- What making room for a forced block comes to, if no thread ends with it: the block that has
lost its slot, and what the transaction sees then. -/
inductive Clears (block : Block) (store : Tables) : Option BlockHash → Tables → Prop where
  | vacant (free : ∀ loser, competitor? store block ≠ .ok (some loser)) :
      Clears block store none store
  | stuck {loser : BlockHash} {cause : LedgerError}
      (competes : competitor? store block = .ok (some loser))
      (fails : (rollback loser store).outcome = .error (.error cause)) :
      Clears block store none (rollback loser store).store
  | undone {loser : BlockHash} (competes : competitor? store block = .ok (some loser))
      (completes : (rollback loser store).outcome = .ok ()) :
      Clears block store (some loser) (rollback loser store).store

end Bench

/-- No fault of the ledger is about work. -/
theorem Failure.ofFault_ne_insufficientWork (fault : Fault) (hash : BlockHash) :
    Failure.ofFault fault ≠ .crash (.insufficientWork hash) := by
  cases fault <;> simp [Failure.ofFault]

/-! ## Putting checked blocks back -/

namespace QueuedBlock

/-- A block that has been checked is not put back: it is stored already, or its signature is
bad. -/
def isDropped (links : EpochLinks) (view : Tables) (item : QueuedBlock) : Bool :=
  view.blocks.contains item.hash || item.checked links == .invalid

/-- A block with what its check has told. -/
def settled (links : EpochLinks) (item : QueuedBlock) : QueuedBlock :=
  { item with verified := item.checked links }

theorem block_known (item : QueuedBlock) (verified : Verification) :
    QueuedBlock.block { item with verified } = item.block := rfl

-- Stated apart from the check, which a proof by computation would run.
@[simp] theorem block_settled (links : EpochLinks) (item : QueuedBlock) :
    (item.settled links).block = item.block := block_known item _

@[simp] theorem hash_settled (links : EpochLinks) (item : QueuedBlock) :
    (item.settled links).hash = item.hash := congrArg Block.hash (block_settled links item)

end QueuedBlock

namespace Queues

/-- The loser of a slot is remembered, if there is one. -/
def remember (loser : Option BlockHash) (queues : Queues) : Queues :=
  match loser with
  | some hash => { queues with rolledBack := queues.rolledBack.insert hash }
  | none => queues

/-- If nothing is taken out to be checked, there is nothing to check. -/
theorem drain_of_isEmpty {limit : Nat} {queues : Queues}
    (empty : (queues.drain limit).1.isEmpty) : (queues.drain limit).2 = queues := by
  obtain ⟨⟨ready, unverified, hashes⟩, forced, rolledBack, stopped, active⟩ := queues
  cases unverified with
  | nil => simp [drain]
  | cons item rest => simp [drain] at empty

end Queues

namespace Processor

variable {setup : IntakeSetup} {processor next : Processor Tables} {item : QueuedBlock}

variable (processor) in
/-- Checked blocks are put back but for those that are dropped, and only those lose their place
among the hashes. -/
theorem putBack_spec (setup : IntakeSetup) (view : Tables) (drained : List QueuedBlock) :
    ∃ hashes metrics, processor.putBack setup view drained = { processor with
        queues := { processor.queues with
          ready := processor.queues.ready
            ++ (drained.filter fun item => !item.isDropped setup.constants.epochs view).map
              (QueuedBlock.settled setup.constants.epochs)
          hashes }
        metrics } ∧
      ∀ hash, hashes.contains hash ↔ processor.queues.hashes.contains hash ∧
        ∀ item ∈ drained, item.isDropped setup.constants.epochs view → item.hash ≠ hash := by
  have kept : (fun item : QueuedBlock => item.checked setup.constants.epochs != .invalid
        && !Store.hasBlock view item.hash)
      = fun item => !item.isDropped setup.constants.epochs view := by
    funext item
    simp [QueuedBlock.isDropped, Store.hasBlock, bne, Bool.and_comm]
  unfold putBack
  simp only [QueuedBlock.verifyAll_eq, Queues.settleAll_eq_filter, Queues.foldl_release_eq,
    List.filter_filter, kept]
  refine ⟨_, _, rfl, fun hash => ?_⟩
  simp only [Queues.contains_foldl_erase, List.mem_filter, QueuedBlock.isDropped, Store.hasBlock,
    Bool.or_eq_true, Bool.and_eq_true, Bool.not_eq_true', beq_iff_eq]
  constructor
  · rintro ⟨⟨contained, notStored⟩, notBad⟩
    refine ⟨contained, fun item member dropped => ?_⟩
    cases isStored : view.blocks.contains item.hash with
    | true => exact notStored item ⟨member, isStored⟩
    | false => exact notBad item ⟨member, dropped.resolve_left (by simp [isStored]), isStored⟩
  · rintro ⟨contained, notDropped⟩
    exact ⟨⟨contained, fun item drained => notDropped item drained.1 (.inl drained.2)⟩,
      fun item drained => notDropped item drained.1 (.inr drained.2.1)⟩

/-! ## Arriving -/

/-- A block with enough work has been brought to the queues: it is turned away, or queued in the
copy that is shared. -/
inductive Arrives (setup : IntakeSetup) (item : QueuedBlock) (processor : Processor Tables) :
    Processor Tables → Prop where
  | turnedAway {isHeld : Handle → Bool} {shared : Handle} {interner : Interner} {copies : Nat}
      {metrics : Metrics} (accepts : setup.work.accepts item.block)
      (interned : processor.interner.intern isHeld item.handle = (shared, interner))
      (refused : processor.queues.refuses item.hash) :
      Arrives setup item processor { processor with interner, copies, metrics }
  | queued {isHeld : Handle → Bool} {shared : Handle} {interner : Interner} {copies : Nat}
      (accepts : setup.work.accepts item.block)
      (interned : processor.interner.intern isHeld item.handle = (shared, interner))
      (admitted : processor.queues.refuses item.hash = false) :
      Arrives setup item processor { processor with
        interner, copies
        queues := processor.queues.enqueue item.hash { item with handle := shared } }

theorem arrives_enqueue {copies : Nat}
    (brought : enqueue setup item { processor with copies } = .ok next) :
    Arrives setup item processor next := by
  unfold enqueue at brought
  split at brought
  · exact nomatch brought
  next accepts =>
  split at brought
  next shared interner interned =>
  dsimp only at brought
  split at brought
  · next refused =>
      obtain rfl := Except.ok.inj brought
      exact .turnedAway (by simpa using accepts) interned refused
  · next admitted =>
      obtain rfl := Except.ok.inj brought
      exact .queued (by simpa using accepts) interned (by simpa using admitted)

/-- A block that arrives makes no difference to the threads and to what is committed. -/
theorem Arrives.beside (arrives : Arrives setup item processor next) :
    next.worker = processor.worker ∧ next.direct = processor.direct ∧
      next.store = processor.store := by
  cases arrives with
  | turnedAway => exact ⟨rfl, rfl, rfl⟩
  | queued => exact ⟨rfl, rfl, rfl⟩

theorem weak_of_enqueue {copies : Nat} {cause : Crash}
    (failed : enqueue setup item { processor with copies } = .error cause) :
    setup.work.accepts item.block = false ∧ cause = .insufficientWork item.hash := by
  unfold enqueue at failed
  split at failed
  · next weak => exact ⟨by simpa using weak, (Except.error.inj failed).symm⟩
  · dsimp only at failed
    split at failed
    · exact nomatch failed
    · exact nomatch failed

/-- What becomes of the blocks that are to be queued again when the next one's turn has come. -/
inductive Requeues (setup : IntakeSetup) (requeue : Requeue) (processor : Processor Tables) :
    Except Crash (Processor Tables × Option Requeue) → Prop where
  | next {waiting : ParkedBlock} {rest : List ParkedBlock} {next : Processor Tables}
      (isNext : requeue.rest = waiting :: rest)
      (arrives : Arrives setup (.ofParked processor.copies waiting) processor next) :
      Requeues setup requeue processor (.ok (next, some { requeue with rest }))
  | done {metrics : Metrics} (isDone : requeue.rest = []) :
      Requeues setup requeue processor (.ok ({ processor with metrics }, none))
  | weak {waiting : ParkedBlock} {rest : List ParkedBlock}
      (isNext : requeue.rest = waiting :: rest)
      (weak : setup.work.accepts waiting.block = false) :
      Requeues setup requeue processor (.error (.insufficientWork waiting.block.hash))

variable (setup processor) in
theorem requeues_requeueNext (requeue : Requeue) :
    Requeues setup requeue processor (processor.requeueNext setup requeue) := by
  unfold requeueNext
  cases isNext : requeue.rest with
  | nil => exact .done isNext
  | cons waiting rest =>
      dsimp only
      cases brought : processor.addParked setup waiting with
      | ok added => exact .next isNext (arrives_enqueue brought)
      | error cause =>
          obtain ⟨weak, rfl⟩ := weak_of_enqueue brought
          exact .weak isNext weak

/-! ## Handling -/

/-- What the worker does when it has offered a block inside its batch. -/
inductive Offered (setup : IntakeSetup) (now : Timestamp) (item : QueuedBlock) (store : Tables) :
    Worker Tables → Prop where
  | crashed {fault : Fault} {cause : Crash} {written : Tables}
      (ran : (process setup.constants now item.verified item.block).run store
        = (.error fault, written))
      (isCrash : Failure.ofFault fault = .crash cause) :
      Offered setup now item store (.crashed cause)
  | failed {cause : LedgerError} {written : Tables} {events : List Event} {processed : Nat}
      (ran : (process setup.constants now item.verified item.block).run store
        = (.error (.error cause), written)) :
      Offered setup now item store (.choosing ⟨written, events, processed⟩)
  | settled {receipt : Receipt} {written : Tables} {parked : Table ParkedKey ParkedBlock}
      {events : List Event} {processed : Nat}
      (ran : (process setup.constants now item.verified item.block).run store
        = (.ok receipt, written))
      (disposes : Bench.Disposes setup.settings item receipt written.parked none parked) :
      Offered setup now item store (.choosing ⟨{ written with parked }, events, processed⟩)
  | frees {receipt : Receipt} {written : Tables} {parked : Table ParkedKey ParkedBlock}
      {requeue : Requeue} {events : List Event} {processed : Nat}
      (ran : (process setup.constants now item.verified item.block).run store
        = (.ok receipt, written))
      (disposes : Bench.Disposes setup.settings item receipt written.parked (some requeue) parked) :
      Offered setup now item store
        (.requeueing ⟨{ written with parked }, events, processed⟩ item requeue)

variable (setup processor) in
theorem offered_offer (now : Timestamp) (item : QueuedBlock) (batch : Batch Tables) :
    ∃ worker metrics, processor.offer setup now item batch = { processor with worker, metrics } ∧
      Offered setup now item batch.store worker := by
  have offers := Bench.offers_offer setup now item ⟨batch.store, batch.events, processor.metrics⟩
  unfold offer
  cases outcome : Bench.offer setup now item ⟨batch.store, batch.events, processor.metrics⟩ with
  | mk answer bench =>
      rw [outcome] at offers
      obtain ⟨store, events, metrics⟩ := bench
      dsimp only at offers
      cases offers with
      | @failed fault written ran =>
          cases fault with
          | error cause => exact ⟨_, _, rfl, .failed ran⟩
          | overflow cause => exact ⟨_, _, rfl, .crashed ran rfl⟩
          | endless => exact ⟨_, _, rfl, .crashed ran rfl⟩
      | @answered receipt written requeue parked ran disposes =>
          cases requeue with
          | none => exact ⟨_, _, rfl, .settled ran disposes⟩
          | some requeue => exact ⟨_, _, rfl, .frees ran disposes⟩

variable (processor) in
/-- Room is made for a forced block and the loser is remembered, or the worker ends. -/
theorem clears_makeRoom (block : Block) (batch : Batch Tables) :
    (∃ cause, processor.makeRoom block batch = .error cause ∧
      ∀ hash, cause ≠ .insufficientWork hash) ∨
    ∃ loser store events metrics, processor.makeRoom block batch = .ok
      ({ processor with queues := processor.queues.remember loser, metrics },
        { batch with store, events }) ∧
      Bench.Clears block batch.store loser store := by
  unfold makeRoom Bench.replace
  cases competes : Bench.competitor? batch.store block with
  | error fault =>
      have free (loser : BlockHash) : Bench.competitor? batch.store block ≠ .ok (some loser) := by
        simp [competes]
      cases fault with
      | error cause => exact .inr ⟨none, _, _, _, rfl, .vacant free⟩
      | overflow cause => exact .inl ⟨_, rfl, by simp⟩
      | endless => exact .inl ⟨_, rfl, by simp⟩
  | ok loser =>
      cases loser with
      | none => exact .inr ⟨none, _, _, _, rfl, .vacant (by simp [competes])⟩
      | some loser =>
          dsimp only
          cases outcome : (rollback loser batch.store).outcome with
          | ok done => exact .inr ⟨some loser, _, _, _, rfl, .undone competes outcome⟩
          | error fault =>
              cases fault with
              | error cause => exact .inr ⟨none, _, _, _, rfl, .stuck competes outcome⟩
              | overflow cause => exact .inl ⟨_, rfl, by simp⟩
              | endless => exact .inl ⟨_, rfl, by simp⟩

variable (setup processor) in
/-- A forced block is offered when room has been made for it, unless the worker ends with that. -/
theorem handle_forced (now : Timestamp) (block : Handle) (batch : Batch Tables) :
    (∃ cause, processor.handle setup now batch (.forced block)
        = { processor with worker := .crashed cause } ∧
      ∀ hash, cause ≠ .insufficientWork hash) ∨
    ∃ loser store worker metrics, processor.handle setup now batch (.forced block)
        = { processor with queues := processor.queues.remember loser, worker, metrics } ∧
      Bench.Clears block.block batch.store loser store ∧
      Offered setup now (.plain block now) store worker := by
  unfold handle
  dsimp only
  rcases processor.clears_makeRoom block.block batch with
    ⟨cause, fails, faulty⟩ | ⟨loser, store, events, metrics, makesRoom, clears⟩
  · rw [fails]
    exact .inl ⟨cause, rfl, faulty⟩
  · simp only [makesRoom]
    obtain ⟨worker, counted, isOffer, offered⟩ := offered_offer setup
      { processor with queues := processor.queues.remember loser, metrics } now
      (.plain block now) { batch with store, events }
    exact .inr ⟨loser, store, worker, counted, isOffer, clears, offered⟩

/-! ## Steps -/

end Processor

/-- The worker has nothing in hand and no transaction. -/
def Worker.IsFree {σ : Type} : Worker σ → Prop
  | .absent | .idle | .woken | .opening | .emitting _ | .closing | .finished => True
  | .verifyingAhead .. | .choosing _ | .verifying .. | .handling .. | .requeueing ..
  | .committing _ | .crashed _ => False

namespace Processor

/-- What one action of a thread does to an intake. -/
inductive Moves (setup : IntakeSetup) (processor : Processor Tables) :
    Action → Processor Tables → Prop where
  /-- The thread cannot do it now, or ends with it. -/
  | stays (action : Action) : Moves setup processor action processor
  | add {block : Block} {arrival : Timestamp} {next : Processor Tables}
      (arrives : Arrives setup (.plain ⟨processor.copies, block⟩ arrival) processor next) :
      Moves setup processor (.add block arrival) next
  | addKnown {known given : ParkedBlock} {now : Timestamp} {next : Processor Tables}
      (isBlock : given.block = known.block)
      (arrives : Arrives setup (.ofParked processor.copies given) processor next) :
      Moves setup processor (.addKnown known now) next
  | force (block : Block) : Moves setup processor (.force block) (processor.force block)
  | stop : Moves setup processor .stop processor.stop
  /-- The worker is started, given up, or goes on with nothing in hand. -/
  | turns {action : Action} {worker : Worker Tables} {active : Bool} {metrics : Metrics}
      {emitted : List Event} (wasFree : processor.worker.IsFree ∨
        ∃ cause, processor.worker = .crashed cause) (isFree : worker.IsFree) :
      Moves setup processor action { processor with
        worker, metrics, emitted, queues := { processor.queues with active } }
  | drainsAhead {moment : Moment} {drained : List QueuedBlock} {queues : Queues}
      (woken : processor.worker = .woken)
      (drains : processor.queues.drain setup.settings.maxVerificationBatch.toNat
        = (drained, queues)) :
      Moves setup processor (.advance moment)
        { processor with queues, worker := .verifyingAhead processor.store drained }
  | returnsAhead {moment : Moment} {snapshot : Tables} {drained : List QueuedBlock}
      (verifying : processor.worker = .verifyingAhead snapshot drained) :
      Moves setup processor (.advance moment)
        { processor.putBack setup snapshot drained with worker := .opening }
  | opens {moment : Moment} (opening : processor.worker = .opening)
      (alone : processor.direct = none) :
      Moves setup processor (.advance moment)
        { processor with worker := .choosing ⟨processor.store, [], 0⟩ }
  | drains {moment : Moment} {batch : Batch Tables} {drained : List QueuedBlock}
      {queues : Queues} (choosing : processor.worker = .choosing batch)
      (drains : processor.queues.drain setup.settings.maxVerificationBatch.toNat
        = (drained, queues)) :
      Moves setup processor (.advance moment)
        { processor with queues, worker := .verifying batch drained }
  | returns {moment : Moment} {batch : Batch Tables} {drained : List QueuedBlock}
      (verifying : processor.worker = .verifying batch drained) :
      Moves setup processor (.advance moment)
        { processor.putBack setup batch.store drained with worker := .choosing batch }
  | takes {moment : Moment} {batch : Batch Tables} {taken : Queues.Taken} {queues : Queues}
      (choosing : processor.worker = .choosing batch)
      (takes : processor.queues.take? = some (taken, queues)) :
      Moves setup processor (.advance moment)
        { processor with queues, worker := .handling batch taken }
  | ends {moment : Moment} {batch : Batch Tables} {metrics : Metrics}
      (choosing : processor.worker = .choosing batch) :
      Moves setup processor (.advance moment)
        { processor with metrics, worker := .committing batch }
  | handles {moment : Moment} {batch : Batch Tables} {item : QueuedBlock}
      {worker : Worker Tables} {metrics : Metrics}
      (handling : processor.worker = .handling batch (.ready item))
      (offered : Offered setup moment.now item batch.store worker) :
      Moves setup processor (.advance moment) { processor with worker, metrics }
  | forces {moment : Moment} {batch : Batch Tables} {block : Handle} {loser : Option BlockHash}
      {store : Tables} {worker : Worker Tables} {metrics : Metrics}
      (handling : processor.worker = .handling batch (.forced block))
      (clears : Bench.Clears block.block batch.store loser store)
      (offered : Offered setup moment.now (.plain block moment.now) store worker) :
      Moves setup processor (.advance moment)
        { processor with queues := processor.queues.remember loser, worker, metrics }
  | forcesInVain {moment : Moment} {batch : Batch Tables} {block : Handle} {cause : Crash}
      (handling : processor.worker = .handling batch (.forced block))
      (faulty : ∀ hash, cause ≠ .insufficientWork hash) :
      Moves setup processor (.advance moment) { processor with worker := .crashed cause }
  | requeues {moment : Moment} {batch : Batch Tables} {item : QueuedBlock}
      {requeue : Requeue} {waiting : ParkedBlock} {rest : List ParkedBlock}
      {next : Processor Tables} (requeueing : processor.worker = .requeueing batch item requeue)
      (isNext : requeue.rest = waiting :: rest)
      (arrives : Arrives setup (.ofParked processor.copies waiting) processor next) :
      Moves setup processor (.advance moment)
        { next with worker := .requeueing batch item { requeue with rest } }
  | requeued {moment : Moment} {batch : Batch Tables} {item : QueuedBlock} {requeue : Requeue}
      {metrics : Metrics} {events : List Event} {processed : Nat}
      (requeueing : processor.worker = .requeueing batch item requeue)
      (isDone : requeue.rest = []) :
      Moves setup processor (.advance moment)
        { processor with metrics, worker := .choosing { batch with events, processed } }
  | requeuesWeak {moment : Moment} {batch : Batch Tables} {item : QueuedBlock}
      {requeue : Requeue} {waiting : ParkedBlock} {rest : List ParkedBlock}
      (requeueing : processor.worker = .requeueing batch item requeue)
      (isNext : requeue.rest = waiting :: rest)
      (weak : setup.work.accepts waiting.block = false) :
      Moves setup processor (.advance moment)
        { processor with worker := .crashed (.insufficientWork waiting.block.hash) }
  | commits {moment : Moment} {batch : Batch Tables}
      (committing : processor.worker = .committing batch) :
      Moves setup processor (.advance moment)
        { processor with store := batch.store, worker := .emitting batch.events }
  | begins {block : Block} {now : Timestamp} {copies : Nat} {metrics : Metrics}
      {receipt : Receipt} {requeue : Option Requeue} {store : Tables} {events : List Event}
      (alone : processor.direct = none) (closed : processor.worker.batch? = none)
      (offers : Bench.Offers setup now (.plain ⟨processor.copies, block⟩ now) processor.store
        (.ok (receipt, requeue)) store) :
      Moves setup processor (.beginDirect block now) { processor with
        copies, metrics
        direct := some ⟨store, events, .plain ⟨processor.copies, block⟩ now, receipt, requeue⟩ }
  | beginsInVain {block : Block} {now : Timestamp} {copies : Nat} {metrics : Metrics} :
      Moves setup processor (.beginDirect block now) { processor with copies, metrics }
  | directRequeues {call : DirectCall Tables} {requeue : Requeue} {waiting : ParkedBlock}
      {rest : List ParkedBlock} {next : Processor Tables} (calls : processor.direct = some call)
      (requeueing : call.requeue = some requeue) (isNext : requeue.rest = waiting :: rest)
      (arrives : Arrives setup (.ofParked processor.copies waiting) processor next) :
      Moves setup processor .advanceDirect
        { next with direct := some { call with requeue := some { requeue with rest } } }
  | directRequeued {call : DirectCall Tables} {requeue : Requeue} {metrics : Metrics}
      {events : List Event} (calls : processor.direct = some call)
      (requeueing : call.requeue = some requeue) (isDone : requeue.rest = []) :
      Moves setup processor .advanceDirect
        { processor with metrics, direct := some { call with events, requeue := none } }
  | directRequeuesWeak {call : DirectCall Tables} {requeue : Requeue} {waiting : ParkedBlock}
      {rest : List ParkedBlock} (calls : processor.direct = some call)
      (requeueing : call.requeue = some requeue) (isNext : requeue.rest = waiting :: rest)
      (weak : setup.work.accepts waiting.block = false) :
      Moves setup processor .advanceDirect { processor with direct := none }
  | directCommits {call : DirectCall Tables} {emitted : List Event}
      (calls : processor.direct = some call) (isDone : call.requeue = none) :
      Moves setup processor .advanceDirect
        { processor with store := call.store, emitted, direct := none }

section Inversion

variable {setup : IntakeSetup} {processor next : Processor Tables}

theorem moves_handle {moment : Moment} {batch : Batch Tables} {taken : Queues.Taken}
    (handling : processor.worker = .handling batch taken) :
    Moves setup processor (.advance moment) (processor.handle setup moment.now batch taken) := by
  cases taken with
  | ready item =>
      obtain ⟨worker, metrics, isOffer, offered⟩ :=
        offered_offer setup processor moment.now item batch
      unfold handle
      dsimp only
      rw [isOffer]
      exact .handles handling offered
  | forced block =>
      rcases handle_forced setup processor moment.now block batch with
        ⟨cause, fails, faulty⟩ | ⟨loser, store, worker, metrics, isOffer, clears, offered⟩
      · rw [fails]
        exact .forcesInVain handling faulty
      · rw [isOffer]
        exact .forces handling clears offered

theorem moves_choose {moment : Moment} {batch : Batch Tables}
    (choosing : processor.worker = .choosing batch) : Moves setup processor (.advance moment)
      (processor.choose setup.settings moment.elapsed batch) := by
  unfold choose
  split
  · exact .ends choosing
  split
  · exact .drains choosing rfl
  split
  · next takes => exact .takes choosing takes
  · exact .ends choosing

theorem moves_advance {moment : Moment} (steps : processor.advance setup moment = some next) :
    Moves setup processor (.advance moment) next := by
  unfold advance at steps
  cases worker : processor.worker with
  | absent | finished | crashed cause => simp [worker] at steps
  | idle =>
      simp only [worker] at steps
      have wasFree : processor.worker.IsFree := by rw [worker]; trivial
      split at steps
      · obtain rfl := Option.some.inj steps
        exact .turns (.inl wasFree) trivial
      split at steps
      · obtain rfl := Option.some.inj steps
        exact .turns (.inl wasFree) trivial
      · exact nomatch steps
  | woken =>
      simp only [worker] at steps
      have wasFree : processor.worker.IsFree := by rw [worker]; trivial
      split at steps
      · next empty =>
          obtain rfl := Option.some.inj steps
          simp only [drain, Queues.drain_of_isEmpty empty]
          exact .turns (.inl wasFree) trivial
      · obtain rfl := Option.some.inj steps
        exact .drainsAhead worker rfl
  | verifyingAhead snapshot drained =>
      simp only [worker, Option.some.injEq] at steps
      subst steps
      exact .returnsAhead worker
  | opening =>
      simp only [worker] at steps
      split at steps
      · exact nomatch steps
      · next alone =>
          obtain rfl := Option.some.inj steps
          exact .opens worker (by simpa using alone)
  | choosing batch =>
      simp only [worker, Option.some.injEq] at steps
      subst steps
      exact moves_choose worker
  | verifying batch drained =>
      simp only [worker, Option.some.injEq] at steps
      subst steps
      exact .returns worker
  | handling batch taken =>
      simp only [worker, Option.some.injEq] at steps
      subst steps
      exact moves_handle worker
  | requeueing batch item requeue =>
      simp only [worker] at steps
      have requeues := requeues_requeueNext setup processor requeue
      cases outcome : processor.requeueNext setup requeue with
      | error cause =>
          rw [outcome] at requeues steps
          cases requeues with
          | weak isNext weak =>
              obtain rfl := Option.some.inj steps
              exact .requeuesWeak worker isNext weak
      | ok result =>
          rw [outcome] at requeues steps
          cases requeues with
          | next isNext arrives =>
              obtain rfl := Option.some.inj steps
              exact .requeues worker isNext arrives
          | done isDone =>
              obtain rfl := Option.some.inj steps
              exact .requeued worker isDone
  | committing batch =>
      simp only [worker, Option.some.injEq] at steps
      subst steps
      exact .commits worker
  | emitting events | closing =>
      simp only [worker, Option.some.injEq] at steps
      have wasFree : processor.worker.IsFree := by rw [worker]; trivial
      subst steps
      exact .turns (.inl wasFree) trivial

theorem moves_beginDirect {block : Block} {now : Timestamp} {answer : Except Failure Unit}
    (begins : processor.beginDirect setup now block = some (answer, next)) :
    Moves setup processor (.beginDirect block now) next := by
  unfold beginDirect at begins
  split at begins
  · exact nomatch begins
  next free =>
  simp only [Bool.or_eq_true, not_or, Option.not_isSome_iff_eq_none] at free
  have offers := Bench.offers_offer setup now (.plain ⟨processor.copies, block⟩ now)
    ⟨processor.store, [], processor.metrics⟩
  simp only [copy] at begins
  cases outcome : Bench.offer setup now (.plain ⟨processor.copies, block⟩ now)
      ⟨processor.store, [], processor.metrics⟩ with
  | mk answered bench =>
      rw [outcome] at offers
      simp only [outcome] at begins
      cases answered with
      | error failure =>
          obtain ⟨-, rfl⟩ := Prod.mk.inj (Option.some.inj begins)
          exact .beginsInVain
      | ok result =>
          obtain ⟨-, rfl⟩ := Prod.mk.inj (Option.some.inj begins)
          exact .begins free.1 free.2 offers

theorem moves_advanceDirect {call : DirectCall Tables} (calls : processor.direct = some call) :
    Moves setup processor .advanceDirect (processor.advanceDirect setup call).2 := by
  unfold advanceDirect
  cases requeueing : call.requeue with
  | none => exact .directCommits calls requeueing
  | some requeue =>
      dsimp only
      have requeues := requeues_requeueNext setup processor requeue
      cases outcome : processor.requeueNext setup requeue with
      | error cause =>
          rw [outcome] at requeues
          cases requeues with
          | weak isNext weak => exact .directRequeuesWeak calls requeueing isNext weak
      | ok result =>
          rw [outcome] at requeues
          cases requeues with
          | next isNext arrives => exact .directRequeues calls requeueing isNext arrives
          | done isDone => exact .directRequeued calls requeueing isDone

variable (setup processor) in
/-- Whatever a thread does, it is one of the moves. -/
theorem moves_act (action : Action) :
    Moves setup processor action (processor.act setup action) := by
  cases action with
  | add block arrival =>
      simp only [act]
      cases brought : processor.add setup block arrival with
      | error cause => exact .stays _
      | ok next => exact .add (arrives_enqueue brought)
  | addKnown known now =>
      simp only [act]
      cases brought : processor.addKnown setup known now with
      | error cause => exact .stays _
      | ok next =>
          unfold addKnown at brought
          split at brought
          · have sameBlock : ParkedBlock.block { known with modified := now } = known.block := rfl
            exact .addKnown sameBlock (arrives_enqueue brought)
          · exact .addKnown rfl (arrives_enqueue brought)
  | force block => exact .force block
  | start =>
      simp only [act, start]
      split
      · next absent => exact .turns (.inl (by rw [absent]; trivial)) trivial
      · exact .stays _
  | stop => exact .stop
  | join =>
      simp only [act, join]
      split
      · next finished => exact .turns (.inl (by rw [finished]; trivial)) trivial
      · next cause crashed => exact .turns (.inr ⟨cause, crashed⟩) trivial
      · exact .stays _
  | advance moment =>
      simp only [act]
      cases steps : processor.advance setup moment with
      | none => exact .stays _
      | some next => exact moves_advance steps
  | beginDirect block now =>
      simp only [act]
      cases begins : processor.beginDirect setup now block with
      | none => exact .stays _
      | some result => exact moves_beginDirect begins
  | advanceDirect =>
      simp only [act]
      cases calls : processor.direct with
      | none => exact .stays _
      | some call => exact moves_advanceDirect calls

/-- What every move preserves holds at the end of every run. -/
theorem run_induction {actions : List Action} {motive : Processor Tables → Prop}
    (preserved : ∀ {before after action}, action ∈ actions → motive before →
      Moves setup before action after → motive after)
    (initially : motive processor) : motive (processor.run setup actions) := by
  induction actions generalizing processor with
  | nil => exact initially
  | cons action rest inductionHypothesis =>
      refine inductionHypothesis (fun done => preserved (List.mem_cons_of_mem _ done)) ?_
      exact preserved List.mem_cons_self initially (moves_act setup processor action)

end Inversion

/-! ## Logs -/

section Logging

variable {ν : Type} (note : Processor Tables → Processor Tables → ν → ν)

/-- What a log says at the end of a run, if something is noted in it at every step. -/
def logged (setup : IntakeSetup) (processor : Processor Tables) (log : ν) : List Action → ν
  | [] => log
  | action :: rest =>
    logged setup (processor.act setup action) (note processor (processor.act setup action) log) rest

variable (setup : IntakeSetup) (processor : Processor Tables) (log : ν) (actions : List Action)

/-- A log that is kept along two runs, one after the other, is kept along both together. -/
theorem logged_append (later : List Action) : logged note setup processor log (actions ++ later)
    = logged note setup (processor.run setup actions) (logged note setup processor log actions)
        later := by
  induction actions generalizing processor log with
  | nil => rfl
  | cons action rest inductionHypothesis => exact inductionHypothesis _ _

/-- What every note preserves holds of the log of every run. -/
theorem logged_induction {motive : ν → Prop}
    (preserved : ∀ before after log, motive log → motive (note before after log))
    (initially : motive log) : motive (logged note setup processor log actions) := by
  induction actions generalizing processor log with
  | nil => exact initially
  | cons action rest inductionHypothesis =>
      exact inductionHypothesis _ _ (preserved _ _ log initially)

end Logging

end Processor

end AccountChains
