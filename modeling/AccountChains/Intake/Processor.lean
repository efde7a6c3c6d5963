import AccountChains.Intake.Handling
import AccountChains.Intake.Queues

/-!
Contract: the intake as a machine of critical sections.

Any thread may submit or force a block, or have one block taken straight into the
ledger. One worker empties the queues in batches: it verifies some blocks against
a snapshot, opens a write transaction, handles blocks one by one, verifies more in
between, commits, and only then reports what happened. Each function here is what
one thread does while nobody else can interfere; between any two of them the other
threads may do their part.

The writer is whoever holds the write transaction: the worker inside a batch, or a
direct call. Neither starts while the other holds it.

Owns: `Processor`, the steps of the worker (`Processor.advance`), of direct calls,
and of producers. Does not own: in which order the threads take their steps.
-/

namespace AccountChains

/-- An open write transaction of the worker: what it sees, the events to report after the
commit, and how many blocks it has handled. -/
structure Batch (σ : Type) where
  store : σ
  events : List Event
  processed : Nat

inductive Worker (σ : Type) where
  | absent
  /-- It waits, or is about to look at the queues. -/
  | idle
  /-- It has seen that there is something to do. -/
  | woken
  /-- It verifies blocks before it opens a transaction. -/
  | verifyingAhead (snapshot : σ) (drained : List QueuedBlock)
  /-- It is about to open a transaction. -/
  | opening
  /-- It is about to choose what to do next in its batch. -/
  | choosing (batch : Batch σ)
  /-- It verifies blocks inside its batch. -/
  | verifying (batch : Batch σ) (drained : List QueuedBlock)
  | handling (batch : Batch σ) (taken : Queues.Taken)
  /-- It queues blocks again that waited for the block it has handled. -/
  | requeueing (batch : Batch σ) (item : QueuedBlock) (requeue : Requeue)
  /-- It is about to commit. -/
  | committing (batch : Batch σ)
  /-- It has committed and is about to report. -/
  | emitting (events : List Event)
  /-- It is done with its batch. -/
  | closing
  /-- It has left because the intake was stopped. -/
  | finished
  | crashed (cause : Crash)

namespace Worker

variable {σ : Type}

def batch? : Worker σ → Option (Batch σ)
  | .choosing batch | .verifying batch _ | .handling batch _ | .requeueing batch _ _
  | .committing batch => some batch
  | _ => none

def drained : Worker σ → List QueuedBlock
  | .verifyingAhead _ drained | .verifying _ drained => drained
  | _ => []

def handles (worker : Worker σ) : List Handle :=
  let inHand := match worker with
    | .handling _ (.forced block) => [block]
    | .handling _ (.ready item) => [item.handle]
    | .requeueing _ item _ => [item.handle]
    | .emitting events => events.filterMap Event.handle?
    | _ => []
  let noted := match worker.batch? with
    | some batch => batch.events.filterMap Event.handle?
    | none => []
  inHand ++ worker.drained.map QueuedBlock.handle ++ noted

end Worker

/-- A call that takes one block straight into the ledger, with its open write transaction. -/
structure DirectCall (σ : Type) where
  store : σ
  events : List Event
  item : QueuedBlock
  receipt : Receipt
  requeue : Option Requeue

/-- The intake with the store that it writes to. -/
structure Processor (σ : Type) where
  /-- What is committed. -/
  store : σ
  queues : Queues
  interner : Interner
  /-- How many copies of blocks have been made. -/
  copies : Nat
  metrics : Metrics
  /-- What has been reported, in order. -/
  emitted : List Event
  worker : Worker σ
  direct : Option (DirectCall σ)

namespace Processor

variable {σ : Type}

def new (settings : IntakeSettings) (store : σ) : Processor σ where
  store := store
  queues := .empty settings.rolledBackMax.toNat
  interner := .empty
  copies := 0
  metrics := .zero
  emitted := []
  worker := .absent
  direct := none

/-- A new intake over a store, unless its settings ask for a memory that cannot be made. -/
def create (settings : IntakeSettings) (store : σ) : Except Crash (Processor σ) := do
  let rolledBack ← (RolledBack.create settings.rolledBackMax.toNat).mapError .capacity
  return { new settings store with queues.rolledBack := rolledBack }

/-- The copies of blocks that anyone holds. -/
def handles (processor : Processor σ) : List Handle :=
  let called := match processor.direct with
    | some call => call.item.handle :: call.events.filterMap Event.handle?
    | none => []
  processor.queues.handles ++ processor.worker.handles ++ called

def copy (block : Block) (processor : Processor σ) : Handle × Processor σ :=
  (⟨processor.copies, block⟩, { processor with copies := processor.copies + 1 })

def size (processor : Processor σ) : Nat := processor.queues.size

/-- Whether producers should wait. -/
def isFull (settings : IntakeSettings) (processor : Processor σ) : Bool :=
  settings.maxSize.toNat ≤ processor.size

def isHalfFull (settings : IntakeSettings) (processor : Processor σ) : Bool :=
  settings.maxSize.toNat / 2 ≤ processor.size

/-! ## Producers -/

/-- Queue a block, unless it is turned away. A block without enough work should never get here:
it ends the thread that brings it. -/
def enqueue (setup : IntakeSetup) (item : QueuedBlock) (processor : Processor σ) :
    Except Crash (Processor σ) :=
  if !setup.work.accepts item.block then .error (.insufficientWork item.hash)
  else
    let (shared, interner) :=
      processor.interner.intern (fun handle => processor.handles.contains handle) item.handle
    if processor.queues.refuses item.hash then
      .ok { processor with interner, metrics := processor.metrics.add .duplicates 1 }
    else
      .ok { processor with
        interner
        queues := processor.queues.enqueue item.hash { item with handle := shared } }

/-- Queue a block that arrived at the given time. -/
def add (setup : IntakeSetup) (block : Block) (arrival : Timestamp) (processor : Processor σ) :
    Except Crash (Processor σ) :=
  let (handle, processor) := processor.copy block
  processor.enqueue setup (.plain handle arrival)

def addParked (setup : IntakeSetup) (parked : ParkedBlock) (processor : Processor σ) :
    Except Crash (Processor σ) :=
  let (handle, processor) := processor.copy parked.block
  processor.enqueue setup (.ofParked handle.number parked)

/-- Queue a block with what is already known about it. Without a time of arrival it has arrived
now. -/
def addKnown (setup : IntakeSetup) (known : ParkedBlock) (now : Timestamp)
    (processor : Processor σ) : Except Crash (Processor σ) :=
  processor.addParked setup
    (if known.modified.isZero then { known with modified := now } else known)

/-- Queue a block that has to replace whatever has its slot. -/
def force (block : Block) (processor : Processor σ) : Processor σ :=
  let (handle, processor) := processor.copy block
  { processor with queues := processor.queues.force handle }

/-! ## The worker -/

def start (processor : Processor σ) : Except IntakeError (Processor σ) :=
  match processor.worker with
  | .absent => .ok { processor with worker := .idle }
  | _ => .error .alreadyRunning

def stop (processor : Processor σ) : Processor σ :=
  { processor with queues := { processor.queues with stopped := true } }

/-- Give up a worker that has ended. -/
def join (processor : Processor σ) : Processor σ :=
  match processor.worker with
  | .finished | .crashed _ => { processor with worker := .absent }
  | _ => processor

/-- How many blocks are handled between two verifications inside a batch. -/
def verifyInterval : Nat := 256

/-- Whether a batch goes on: there are blocks, and its time is not over or it has not handled its
least number of blocks. -/
def goesOn (settings : IntakeSettings) (elapsed : Nat) (queues : Queues) (batch : Batch σ) :
    Bool :=
  !queues.stopped && queues.hasBlocks &&
    (batch.processed == 0 || settings.hasTime elapsed
      || batch.processed < settings.batchSize.toNat)

/-- Whether blocks are verified before the next one is handled. -/
def verifiesNext (queues : Queues) (batch : Batch σ) : Bool :=
  !queues.unverified.isEmpty &&
    (queues.ready.isEmpty || (batch.processed > 0 && batch.processed % verifyInterval == 0))

def drain (settings : IntakeSettings) (processor : Processor σ) :
    List QueuedBlock × Processor σ :=
  let (drained, queues) := processor.queues.drain settings.maxVerificationBatch.toNat
  (drained, { processor with queues })

/-- End a batch: note how long the queues are, then commit. -/
def endBatch (batch : Batch σ) (processor : Processor σ) : Processor σ :=
  let queues := processor.queues
  { processor with
    metrics := processor.metrics.recordDepths queues.ready.length queues.unverified.length
      queues.forced.length
    worker := .committing batch }

def choose (settings : IntakeSettings) (elapsed : Nat) (batch : Batch σ)
    (processor : Processor σ) : Processor σ :=
  if !goesOn settings elapsed processor.queues batch then processor.endBatch batch
  else if verifiesNext processor.queues batch then
    let (drained, processor) := processor.drain settings
    { processor with worker := .verifying batch drained }
  else
    match processor.queues.take? with
    | some (taken, queues) => { processor with queues, worker := .handling batch taken }
    | none => processor.endBatch batch

/-- Queue the next of the blocks that waited, or report that all of them are queued. -/
def requeueNext (setup : IntakeSetup) (requeue : Requeue) (processor : Processor σ) :
    Except Crash (Processor σ × Option Requeue) :=
  match requeue.rest with
  | parked :: rest => do return (← processor.addParked setup parked, some { requeue with rest })
  | [] =>
    let metrics := processor.metrics.add .uncheckedRetried (.ofNat requeue.count)
    .ok ({ processor with metrics }, none)

variable [Store σ]

/-- Verify blocks that have been taken out and put them back. Those that the store already has
are dropped. -/
def putBack (setup : IntakeSetup) (view : σ) (drained : List QueuedBlock)
    (processor : Processor σ) : Processor σ :=
  let committed := drained.filter fun item => Store.hasBlock view item.hash
  let fresh := drained.filter fun item => !Store.hasBlock view item.hash
  let verdicts := QueuedBlock.verifyAll setup.constants.epochs
    setup.settings.signatureCheckerThreads.toNat fresh
  let queues := committed.foldl (fun queues item => queues.release item.hash) processor.queues
  { processor with
    queues := queues.settleAll (fresh.zip verdicts)
    metrics := (processor.metrics.recordVerification fresh.length).add .badSignatures
      (.ofNat (verdicts.count .invalid)) }

/-- Make room for a forced block; the loser is remembered. A failure is counted, and the block is
offered all the same. -/
def makeRoom (block : Block) (processor : Processor σ) (batch : Batch σ) :
    Except Crash (Processor σ × Batch σ) :=
  let (outcome, bench) := Bench.replace block ⟨batch.store, batch.events, processor.metrics⟩
  let batch := { batch with store := bench.store, events := bench.events }
  let processor := { processor with metrics := bench.metrics }
  match outcome with
  | .error (.crash cause) => .error cause
  | .error (.error _) => .ok ({ processor with metrics := processor.metrics.add .failures 1 }, batch)
  | .ok none => .ok (processor, batch)
  | .ok (some loser) =>
    .ok ({ processor with
      queues := { processor.queues with rolledBack := processor.queues.rolledBack.insert loser } },
      batch)

/-- Offer a block to the ledger inside a batch. A failure is counted, and the batch goes on. -/
def offer (setup : IntakeSetup) (now : Timestamp) (item : QueuedBlock) (batch : Batch σ)
    (processor : Processor σ) : Processor σ :=
  let (outcome, bench) :=
    Bench.offer setup now item ⟨batch.store, batch.events, processor.metrics⟩
  let batch := { batch with store := bench.store, events := bench.events }
  let after := { batch with processed := batch.processed + 1 }
  let processor := { processor with metrics := bench.metrics }
  match outcome with
  | .error (.crash cause) => { processor with worker := .crashed cause }
  | .error (.error _) =>
    { processor with metrics := processor.metrics.add .failures 1, worker := .choosing after }
  | .ok (_, none) => { processor with worker := .choosing after }
  | .ok (_, some requeue) => { processor with worker := .requeueing batch item requeue }

def handle (setup : IntakeSetup) (now : Timestamp) (batch : Batch σ) (taken : Queues.Taken)
    (processor : Processor σ) : Processor σ :=
  match taken with
  | .ready item => processor.offer setup now item batch
  | .forced block =>
    match processor.makeRoom block.block batch with
    | .error cause => { processor with worker := .crashed cause }
    | .ok (processor, batch) => processor.offer setup now (.plain block now) batch

/-- The next step of the worker; none if it has nothing to do or has to wait. -/
def advance (setup : IntakeSetup) (moment : Moment) (processor : Processor σ) :
    Option (Processor σ) :=
  match processor.worker with
  | .absent | .finished | .crashed _ => none
  | .idle =>
    if processor.queues.stopped then some { processor with worker := .finished }
    else if processor.queues.hasBlocks then
      some { processor with queues := { processor.queues with active := true }, worker := .woken }
    else none
  | .woken =>
    let (drained, processor) := processor.drain setup.settings
    if drained.isEmpty then some { processor with worker := .opening }
    else some { processor with worker := .verifyingAhead processor.store drained }
  | .verifyingAhead snapshot drained =>
    some { processor.putBack setup snapshot drained with worker := .opening }
  | .opening =>
    if processor.direct.isSome then none
    else some { processor with worker := .choosing ⟨processor.store, [], 0⟩ }
  | .choosing batch => some (processor.choose setup.settings moment.elapsed batch)
  | .verifying batch drained =>
    some { processor.putBack setup batch.store drained with worker := .choosing batch }
  | .handling batch taken => some (processor.handle setup moment.now batch taken)
  | .requeueing batch item requeue =>
    match processor.requeueNext setup requeue with
    | .error cause => some { processor with worker := .crashed cause }
    | .ok (processor, some rest) =>
      some { processor with worker := .requeueing batch item rest }
    | .ok (processor, none) =>
      some { processor with
        worker := .choosing { batch with
          events := batch.events ++ [.gapResolved requeue.dependency]
          processed := batch.processed + 1 } }
  | .committing batch =>
    some { processor with store := batch.store, worker := .emitting batch.events }
  | .emitting events =>
    some { processor with
      emitted := processor.emitted ++ events
      metrics := processor.metrics.recordBatch moment.elapsedMilliseconds
      worker := .closing }
  | .closing =>
    some { processor with queues := { processor.queues with active := false }, worker := .idle }

/-! ## Direct calls -/

/-- Begin to take a block straight into the ledger; none while someone else holds the write
transaction. A failure drops the transaction. -/
def beginDirect (setup : IntakeSetup) (now : Timestamp) (block : Block)
    (processor : Processor σ) : Option (Except Failure Unit × Processor σ) :=
  if processor.direct.isSome || processor.worker.batch?.isSome then none
  else
    let (handle, processor) := processor.copy block
    let item := QueuedBlock.plain handle now
    let (outcome, bench) := Bench.offer setup now item ⟨processor.store, [], processor.metrics⟩
    let processor := { processor with metrics := bench.metrics }
    match outcome with
    | .error failure => some (.error failure, processor)
    | .ok (receipt, requeue) =>
      some (.ok (),
        { processor with direct := some ⟨bench.store, bench.events, item, receipt, requeue⟩ })

/-- The next step of a direct call: it queues one more block again, or commits, reports and
answers. -/
def advanceDirect (setup : IntakeSetup) (call : DirectCall σ) (processor : Processor σ) :
    Option (Except Crash Receipt) × Processor σ :=
  match call.requeue with
  | none =>
    (some (.ok call.receipt),
      { processor with
        store := call.store, emitted := processor.emitted ++ call.events, direct := none })
  | some requeue =>
    match processor.requeueNext setup requeue with
    | .error cause => (some (.error cause), { processor with direct := none })
    | .ok (processor, some rest) =>
      (none, { processor with direct := some { call with requeue := some rest } })
    | .ok (processor, none) =>
      (none, { processor with
        direct := some { call with
          events := call.events ++ [.gapResolved requeue.dependency], requeue := none } })

end Processor

end AccountChains
