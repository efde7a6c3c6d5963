import AccountChains.Intake.Event
import AccountChains.Intake.Metrics
import AccountChains.Intake.QueuedBlock
import AccountChains.Intake.RolledBack
import AccountChains.Intake.Settings
import AccountChains.Ledger.Process
import AccountChains.Ledger.Rollback
import AccountChains.Work.Basic

/-!
Contract: what the intake does with one block inside a write transaction.

The block is offered to the ledger, and the verdict decides what follows. A block
with a gap is parked under what it waits for. A block that has become part of the
ledger, or was part of it before, frees the blocks that are parked under it; they
are handed back to be queued again. A fork is reported unless it arrived just now,
any other refusal always. A forced block first has whatever occupies its slot
undone.

Owns: `Bench.offer`, `Bench.replace`, and the kinds of failure. Does not own: the
queues, or when the transaction is committed.
-/

namespace AccountChains

structure IntakeSetup where
  settings : IntakeSettings
  constants : LedgerConstants
  work : WorkThreshold

/-- The present, and for how many nanoseconds the current batch has been worked on. -/
structure Moment where
  now : Timestamp
  elapsed : Nat
deriving DecidableEq, Repr

/-- The milliseconds of the current batch: its full seconds and the rest as parts of a second,
both times a thousand. -/
def Moment.elapsedMilliseconds (moment : Moment) : Float :=
  (.ofNat (moment.elapsed / 1000000000) + .ofNat (moment.elapsed % 1000000000) / 1000000000) * 1000

/-- Why a call of the intake fails. -/
inductive IntakeError where
  | ledger (cause : LedgerError)
  | store (cause : StoreError)
  | alreadyRunning
deriving DecidableEq, Repr

def IntakeError.kind : IntakeError → String
  | .ledger _ => "Ledger"
  | .store _ => "Store"
  | .alreadyRunning => "AlreadyStarted"

def IntakeError.message : IntakeError → String
  | .ledger cause => "ledger error: " ++ cause.message
  | .store cause => "store error: " ++ cause.message
  | .alreadyRunning => "block processor is already running"

/-- Why a thread ends in the middle of its work. -/
inductive Crash where
  /-- An intake was to remember more blocks than a memory has places for. -/
  | capacity (cause : CapacityOverflow)
  | overflow (cause : Overflow)
  | endless
  /-- A block was queued although its work does not reach the threshold. -/
  | insufficientWork (hash : BlockHash)
deriving DecidableEq, Repr

def Crash.message : Crash → String
  | .capacity cause => cause.message
  | .overflow cause => cause.message
  | .endless => "endless walk"
  | .insufficientWork hash => "block " ++ hash.render ++ " queued with insufficient work"

/-- Why a block has not been handled. -/
inductive Failure where
  | error (cause : IntakeError)
  | crash (cause : Crash)
deriving DecidableEq, Repr

/-- A fault of the ledger as a failure of the intake. -/
def Failure.ofFault : Fault → Failure
  | .error cause => .error (.ledger cause)
  | .overflow cause => .crash (.overflow cause)
  | .endless => .crash .endless

/-- Blocks that have to be queued again because what they waited for is there. -/
structure Requeue where
  dependency : BlockHash
  /-- How many there were. -/
  count : Nat
  /-- Those that have not been queued yet. -/
  rest : List ParkedBlock
deriving DecidableEq, Repr

/-- What handling a block changes: what its transaction sees, the events to report after the
commit, and the counts. -/
structure Bench (σ : Type) where
  store : σ
  events : List Event
  metrics : Metrics

namespace Bench

variable {σ : Type} [Store σ]

/-- Note an event to report after the commit. -/
def note (event : Event) (bench : Bench σ) : Bench σ :=
  { bench with events := bench.events ++ [event] }

/-- Park a block under the block that it waits for. -/
def park (item : QueuedBlock) (dependency : BlockHash) (verified : Verification)
    (bench : Bench σ) : Bench σ :=
  { bench with
    store := Store.putParked ⟨dependency, item.hash⟩ (item.toParked verified) bench.store
    metrics := bench.metrics.add .uncheckedAdded 1 }.note (.gap item.hash dependency)

/-- Take up the blocks that are parked under a block; they stay parked if the settings say so. -/
def takeParked (settings : IntakeSettings) (dependency : BlockHash) (bench : Bench σ) :
    Except StoreError (Option Requeue) × Bench σ :=
  match Store.parked bench.store dependency with
  | .error cause => (.error cause, bench)
  | .ok [] => (.ok none, bench)
  | .ok waiting =>
    let store := if settings.uncheckedDeletion then
        waiting.foldl (fun store entry => Store.removeParked entry.1 store) bench.store
      else bench.store
    (.ok (some ⟨dependency, waiting.length, waiting.map Prod.snd⟩), { bench with store })

/-- The source under which a block with a missing source is parked: the one it names, else its
link. -/
def missingSource (block : Block) : BlockHash :=
  if block.source.isZero then block.link.asBlockHash else block.source

/-- What follows from a verdict: the blocks to queue again, if any. -/
def follow (settings : IntakeSettings) (now : Timestamp) (item : QueuedBlock)
    (receipt : Receipt) (bench : Bench σ) : Except StoreError (Option Requeue) × Bench σ :=
  match receipt.verdict with
  | .progress =>
    let isLive := item.modified.isWithin settings.liveWindowSecs now
    (if isLive then bench.note (.live item.handle .progress) else bench).takeParked settings
      item.hash
  | .gapPrevious => (.ok none, bench.park item item.block.previous receipt.verified)
  | .gapSource => (.ok none, bench.park item (missingSource item.block) receipt.verified)
  | .old => if settings.fastBootstrap then (.ok none, bench) else bench.takeParked settings item.hash
  | .fork =>
    if item.modified.isWithin settings.forkGraceSecs now then (.ok none, bench)
    else (.ok none, bench.note (.fork item.handle))
  | verdict => (.ok none, bench.note (.rejected item.hash verdict))

/-- Offer a block to the ledger and act on the verdict. The answer is the receipt and the blocks
to queue again. -/
def offer (setup : IntakeSetup) (now : Timestamp) (item : QueuedBlock) (bench : Bench σ) :
    Except Failure (Receipt × Option Requeue) × Bench σ :=
  match (Ledger.process setup.constants now item.verified item.block).run bench.store with
  | (.error fault, store) => (.error (.ofFault fault), { bench with store })
  | (.ok receipt, store) =>
    let bench := { bench with store, metrics := bench.metrics.recordVerdict receipt.verdict }
    match bench.follow setup.settings now item receipt with
    | (.error cause, bench) => (.error (.error (.store cause)), bench)
    | (.ok requeue, bench) => (.ok (receipt, requeue), bench)

/-- The block that has the slot of the given one, unless it is that block itself. -/
def competitor? (store : σ) (block : Block) : Answer (Option BlockHash) := do
  let occupant ← Ledger.successor? store block.qualifiedRoot
  return occupant.filter fun hash => hash ≠ block.hash

/-- Undo whatever has the slot of a forced block. The answer is the block that has lost the
slot, if there was another one. -/
def replace (block : Block) (bench : Bench σ) : Except Failure (Option BlockHash) × Bench σ :=
  match competitor? bench.store block with
  | .error fault => (.error (.ofFault fault), bench)
  | .ok none => (.ok none, bench)
  | .ok (some loser) =>
    let undoing := Ledger.rollback loser bench.store
    match undoing.outcome with
    | .error fault => (.error (.ofFault fault), { bench with store := undoing.store })
    | .ok () =>
      (.ok (some loser),
        { bench with
          store := undoing.store
          metrics :=
            (bench.metrics.add .rollbacks 1).add .rolledBackBlocks
              (.ofNat undoing.undone.length) }.note (.rolledBack block.hash undoing.undone))

end Bench

end AccountChains
