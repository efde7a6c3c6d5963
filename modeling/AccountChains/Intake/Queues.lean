import AccountChains.Intake.QueuedBlock
import AccountChains.Intake.RolledBack

/-!
Contract: the queues of the intake, which producers and the worker share.

A block that has to be verified waits in `unverified`, any other in `ready`; a
forced block waits in `forced`. `hashes` holds the hashes of the blocks in the
first two queues and of those that are being verified, so that a block is not
queued twice. Each function is what one holder of the lock does in one go.

Owns: `Lanes`, `Queues` and their operations. Does not own: who calls them and when.
-/

namespace AccountChains

/-- The blocks that wait their turn, and the hashes under which no other block is queued. -/
structure Lanes where
  /-- Ready for the ledger. -/
  ready : List QueuedBlock
  /-- Waiting for verification. -/
  unverified : List QueuedBlock
  /-- The hashes of the blocks that are ready, unverified or being verified. -/
  hashes : Table BlockHash Unit

namespace Lanes

/-- The blocks that wait to be handled or to be checked. -/
def items (lanes : Lanes) : List QueuedBlock := lanes.ready ++ lanes.unverified

/-- Queue a block under the hash it was submitted with. -/
def enqueue (hash : BlockHash) (item : QueuedBlock) (lanes : Lanes) : Lanes :=
  let hashes := lanes.hashes.insert hash ()
  if item.needsVerification then
    { lanes with unverified := lanes.unverified ++ [item], hashes }
  else
    { lanes with ready := lanes.ready ++ [item], hashes }

variable (hash : BlockHash) (item : QueuedBlock) (lanes : Lanes)

@[simp] theorem hashes_enqueue :
    (lanes.enqueue hash item).hashes = lanes.hashes.insert hash () := by
  unfold enqueue
  split <;> rfl

/-- A block that has not to be verified is ready at once. -/
theorem ready_enqueue : (lanes.enqueue hash item).ready
    = lanes.ready ++ if item.needsVerification then [] else [item] := by
  unfold enqueue
  by_cases needs : item.needsVerification
  · simp [needs]
  · simp [needs]

theorem unverified_enqueue : (lanes.enqueue hash item).unverified
    = lanes.unverified ++ if item.needsVerification then [item] else [] := by
  unfold enqueue
  by_cases needs : item.needsVerification
  · simp [needs]
  · simp [needs]

/-- A block is queued in one place, and all others stay where they are. -/
theorem items_enqueue : (lanes.enqueue hash item).items.Perm (item :: lanes.items) := by
  unfold items
  rw [ready_enqueue, unverified_enqueue]
  by_cases needs : item.needsVerification
  · rw [if_pos needs, if_pos needs, List.append_nil, ← List.append_assoc]
    exact List.perm_append_singleton item _
  · rw [if_neg needs, if_neg needs, List.append_nil, List.append_assoc]
    exact List.perm_middle

variable {hash item lanes} {other : QueuedBlock}

theorem mem_items_enqueue :
    other ∈ (lanes.enqueue hash item).items ↔ other = item ∨ other ∈ lanes.items := by
  rw [(items_enqueue hash item lanes).mem_iff, List.mem_cons]

theorem mem_ready_enqueue : other ∈ (lanes.enqueue hash item).ready
    ↔ other ∈ lanes.ready ∨ item.needsVerification = false ∧ other = item := by
  rw [ready_enqueue]
  by_cases needs : item.needsVerification
  · simp [needs]
  · simp [needs]

/-- Only a block that has to be verified waits for it. -/
theorem mem_unverified_enqueue : other ∈ (lanes.enqueue hash item).unverified
    ↔ other ∈ lanes.unverified ∨ item.needsVerification ∧ other = item := by
  rw [unverified_enqueue]
  by_cases needs : item.needsVerification
  · simp [needs]
  · simp [needs]

theorem contains_enqueue {probe : BlockHash} : (lanes.enqueue hash item).hashes.contains probe
    ↔ probe = hash ∨ lanes.hashes.contains probe := by
  rw [hashes_enqueue, Table.contains, Table.get?_insert, Table.contains]
  by_cases same : probe = hash
  · simp [same]
  · simp [same]

end Lanes

structure Queues extends Lanes where
  /-- To replace whatever has their slot. -/
  forced : List Handle
  rolledBack : RolledBack
  stopped : Bool
  /-- Whether a batch is being worked on. -/
  active : Bool

namespace Queues

def empty (rolledBackMax : Nat) : Queues :=
  { ready := [], unverified := [], forced := [], hashes := .empty
    rolledBack := .empty rolledBackMax, stopped := false, active := false }

def hasBlocks (queues : Queues) : Bool :=
  !queues.ready.isEmpty || !queues.unverified.isEmpty || !queues.forced.isEmpty

def size (queues : Queues) : Nat :=
  queues.ready.length + queues.unverified.length + queues.forced.length

/-- Whether nothing is left to do, or nothing will be done. -/
def isSettled (queues : Queues) : Bool :=
  queues.stopped || (!queues.hasBlocks && !queues.active)

/-- Whether a block with this hash is turned away: it is on its way, or it has lately been
replaced by force. -/
def refuses (queues : Queues) (hash : BlockHash) : Bool :=
  queues.hashes.contains hash || queues.rolledBack.contains hash

/-- Queue a block under the hash it was submitted with. -/
def enqueue (hash : BlockHash) (item : QueuedBlock) (queues : Queues) : Queues :=
  { queues with toLanes := queues.toLanes.enqueue hash item }

section Enqueuing

variable (hash : BlockHash) (item : QueuedBlock) (queues : Queues)

@[simp] theorem toLanes_enqueue :
    (queues.enqueue hash item).toLanes = queues.toLanes.enqueue hash item := rfl

@[simp] theorem forced_enqueue : (queues.enqueue hash item).forced = queues.forced := rfl

@[simp] theorem rolledBack_enqueue :
    (queues.enqueue hash item).rolledBack = queues.rolledBack := rfl

@[simp] theorem stopped_enqueue : (queues.enqueue hash item).stopped = queues.stopped := rfl

@[simp] theorem active_enqueue : (queues.enqueue hash item).active = queues.active := rfl

end Enqueuing

/-- Queue a block that has to replace whatever has its slot. -/
def force (block : Handle) (queues : Queues) : Queues :=
  { queues with forced := queues.forced ++ [block] }

/-- Take the blocks that are verified next: at most `limit`, but at least one. -/
def drain (limit : Nat) (queues : Queues) : List QueuedBlock × Queues :=
  let count := min queues.unverified.length (max limit 1)
  (queues.unverified.take count, { queues with unverified := queues.unverified.drop count })

/-- A block is no longer on its way. -/
def release (hash : BlockHash) (queues : Queues) : Queues :=
  { queues with hashes := queues.hashes.erase hash }

/-- Take a verified block back: a bad one is dropped, any other is ready. -/
def settle (item : QueuedBlock) (verified : Verification) (queues : Queues) : Queues :=
  if verified == .invalid then queues.release item.hash
  else { queues with ready := queues.ready ++ [{ item with verified }] }

def settleAll (batch : List (QueuedBlock × Verification)) (queues : Queues) : Queues :=
  batch.foldl (fun queues entry => queues.settle entry.1 entry.2) queues

/-- What the worker takes from the queues. -/
inductive Taken where
  | forced (block : Handle)
  | ready (item : QueuedBlock)
deriving DecidableEq, Repr

/-- Take the next block: forced ones come first. -/
def take? (queues : Queues) : Option (Taken × Queues) :=
  match queues.forced, queues.ready with
  | block :: rest, _ => some (.forced block, { queues with forced := rest })
  | [], item :: rest => some (.ready item, { queues with ready := rest }.release item.hash)
  | [], [] => none

/-- The copies of blocks that the queues hold. -/
def handles (queues : Queues) : List Handle :=
  queues.ready.map QueuedBlock.handle ++ queues.unverified.map QueuedBlock.handle
    ++ queues.forced

end Queues

end AccountChains
