import AccountChains.Intake.Interner
import AccountChains.Ledger.Verdict

/-!
Contract: what the intake reports while it commits blocks, and who is told.

Owns: `Event`, and `EventBus`, which passes every event to all listeners in the
order in which they subscribed.
-/

namespace AccountChains

/-- What the intake reports. -/
inductive Event where
  /-- A block that arrived lately is now part of the ledger. -/
  | live (block : Handle) (verdict : Verdict)
  /-- A block waits for another one. -/
  | gap (hash dependency : BlockHash)
  /-- The blocks that waited for another one have been queued again. -/
  | gapResolved (dependency : BlockHash)
  /-- A block has lost its slot to another one and did not arrive just now. -/
  | fork (block : Handle)
  /-- A forced block has driven out others. -/
  | rolledBack (winner : BlockHash) (undone : List BlockHash)
  /-- The ledger has refused a block for good. -/
  | rejected (hash : BlockHash) (verdict : Verdict)
deriving DecidableEq, Repr

/-- The copy of a block that an event holds. -/
def Event.handle? : Event → Option Handle
  | .live block _ | .fork block => some block
  | .gap .. | .gapResolved _ | .rolledBack .. | .rejected .. => none

/-- Those who are told about events, in the order in which they subscribed. -/
structure EventBus (Listener : Type) where
  listeners : List Listener

namespace EventBus

variable {Listener : Type}

def empty : EventBus Listener := ⟨[]⟩

def subscribe (listener : Listener) (bus : EventBus Listener) : EventBus Listener :=
  ⟨bus.listeners ++ [listener]⟩

def size (bus : EventBus Listener) : Nat := bus.listeners.length

/-- The calls that tell about an event, in order. -/
def calls (bus : EventBus Listener) (event : Event) : List (Listener × Event) :=
  bus.listeners.map fun listener => (listener, event)

end EventBus

end AccountChains
