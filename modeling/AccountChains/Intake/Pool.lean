import AccountChains.Intake.Interner

/-!
Contract: an interner together with those who hold copies of blocks.

Every holder has a name and keeps at most one copy. Offering a block makes a copy
of it and asks the interner which copy to use; a holder may keep the answer, and
may let go of what it keeps. A copy that nobody keeps is not held after the call
that returned it.

Owns: `Pool` and its runs. Does not own: which copy the interner chooses.
-/

namespace AccountChains

/-- An interner with the copies that are kept, and the number of copies made so far. -/
structure Pool where
  interner : Interner
  kept : List (Nat × Handle)
  copies : Nat

namespace Pool

def empty : Pool := ⟨.empty, [], 0⟩

def isHeld (pool : Pool) (handle : Handle) : Bool :=
  pool.kept.any fun entry => entry.2 == handle

def holders (pool : Pool) (handle : Handle) : List Nat :=
  (pool.kept.filter fun entry => entry.2 == handle).map Prod.fst

/-- Make a copy of a block and offer it; the answer is the copy to use. -/
def offer (block : Block) (pool : Pool) : Handle × Pool :=
  let (shared, interner) := pool.interner.intern pool.isHeld ⟨pool.copies, block⟩
  (shared, { pool with interner, copies := pool.copies + 1 })

/-- A holder lets go of what it keeps. -/
def release (holder : Nat) (pool : Pool) : Pool :=
  { pool with kept := pool.kept.filter fun entry => entry.1 != holder }

/-- A holder keeps a copy instead of what it kept. -/
def keep (holder : Nat) (handle : Handle) (pool : Pool) : Pool :=
  let free := pool.release holder
  { free with kept := (holder, handle) :: free.kept }

end Pool

end AccountChains
