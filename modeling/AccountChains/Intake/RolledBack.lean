import AccountChains.Identifier
import AccountChains.Table

/-!
Contract: a bounded memory of blocks that were replaced by force.

The memory takes each hash once. When it is full, a new hash drives out the
oldest one; a hash that is remembered already changes nothing, not even its own
age. A memory without room remembers nothing.

All places of a memory are set aside when it is made. Their number is a power of two
of which at most seven eighths are used, and each takes the 32 bytes of a hash and one
more; a memory whose places do not fit into the addresses of 63 bits cannot be made.

Owns: the limit, insertion and the membership test. Does not own: what is done with
a block that is remembered.
-/

namespace AccountChains

structure RolledBack where
  capacity : Nat
  /-- The remembered hashes, for the membership test. -/
  members : Table BlockHash Unit
  /-- The remembered hashes, oldest first. -/
  order : List BlockHash

/-- A memory was to have room for more hashes than it can have. -/
structure CapacityOverflow where
  requested : Nat
deriving DecidableEq, Repr

def CapacityOverflow.message (_ : CapacityOverflow) : String := "Hash table capacity overflow"

namespace RolledBack

/-- A memory with room for `capacity` hashes. -/
def empty (capacity : Nat) : RolledBack := ⟨capacity, .empty, []⟩

def contains (memory : RolledBack) (hash : BlockHash) : Bool := memory.members.contains hash

def size (memory : RolledBack) : Nat := memory.members.size

def forgetOldest (memory : RolledBack) : RolledBack :=
  match memory.order with
  | [] => memory
  | oldest :: rest => { memory with members := memory.members.erase oldest, order := rest }

/-- How many hashes a memory can have room for: seven eighths of the greatest number of places,
which is `2 ^ 57`. -/
def maxCapacity : Nat := 7 * (1 <<< 54)

/-- A memory with room for `capacity` hashes, if there can be one. -/
def create (capacity : Nat) : Except CapacityOverflow RolledBack :=
  if maxCapacity < capacity then .error ⟨capacity⟩ else .ok (.empty capacity)

def insert (hash : BlockHash) (memory : RolledBack) : RolledBack :=
  if memory.capacity == 0 || memory.contains hash then memory
  else
    let room := if memory.capacity ≤ memory.order.length then memory.forgetOldest else memory
    { room with members := room.members.insert hash (), order := room.order ++ [hash] }

end RolledBack

end AccountChains
