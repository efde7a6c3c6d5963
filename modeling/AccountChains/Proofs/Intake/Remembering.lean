import Mathlib.Data.List.DropRight
import Mathlib.Data.List.Nodup
import AccountChains.Intake.RolledBack
import AccountChains.Proofs.Table

/-!
Contract: the memory of replaced blocks holds the latest hashes that were new to it.

A hash that the memory knows changes nothing. One that is new goes to the end of the
order, and if the memory was full the hash at the front goes. So the order is always the
end of the list of the hashes that were new when they came, as long as the memory has
room for, and since what is forgotten is not in the rest of the order, the members are the
hashes of the order.

Owns: which hashes are remembered after any sequence of insertions. Does not own: who
asks for them.
-/

namespace AccountChains

namespace RolledBack

/-! ## Sequences of insertions -/

/-- The memory after these hashes came, one after the other. -/
def insertAll (memory : RolledBack) (hashes : List BlockHash) : RolledBack :=
  hashes.foldl (fun memory hash => memory.insert hash) memory

/-- Those of the hashes that the memory does not know when they come. -/
def news (memory : RolledBack) : List BlockHash → List BlockHash
  | [] => []
  | hash :: rest =>
    if memory.contains hash then (memory.insert hash).news rest
    else hash :: (memory.insert hash).news rest

/-- The members of a memory are the hashes of its order, each once and no more than it may hold. -/
structure Exact (memory : RolledBack) : Prop where
  contains_iff : ∀ hash, memory.contains hash = true ↔ hash ∈ memory.order
  distinct : memory.order.Nodup
  bounded : memory.order.length ≤ memory.capacity

/-! ## One insertion -/

section Insertions

variable {memory : RolledBack} {hash : BlockHash}

/-- A new hash at the end of the order. -/
def append (memory : RolledBack) (hash : BlockHash) : RolledBack :=
  { memory with members := memory.members.insert hash (), order := memory.order ++ [hash] }

/-- Room for one more hash. -/
def makeRoom (memory : RolledBack) : RolledBack :=
  if memory.capacity ≤ memory.order.length then memory.forgetOldest else memory

theorem insert_of_contains (known : memory.contains hash = true) : memory.insert hash = memory := by
  rw [insert, known, Bool.or_true]
  rfl

theorem insert_of_capacity_eq_zero (noRoom : memory.capacity = 0) :
    memory.insert hash = memory := by
  rw [insert, noRoom]
  rfl

theorem insert_of_new (hasRoom : memory.capacity ≠ 0) (new : memory.contains hash = false) :
    memory.insert hash = memory.makeRoom.append hash := by
  rw [insert, new, Bool.or_false, if_neg (by simpa using hasRoom)]
  rfl

theorem contains_erase_iff (oldest : BlockHash) :
    (memory.members.erase oldest).contains hash = true ↔
      hash ≠ oldest ∧ memory.contains hash = true := by
  rw [Table.contains, Table.get?_erase]
  by_cases isOldest : hash = oldest
  · simp [isOldest]
  · simp [isOldest, contains, Table.contains]

theorem contains_append_iff (other : BlockHash) :
    (memory.append hash).contains other = true ↔ other = hash ∨ memory.contains other = true := by
  rw [contains, append, Table.contains, Table.get?_insert]
  by_cases isNew : other = hash
  · simp [isNew]
  · simp [isNew, contains, Table.contains]

theorem exact_empty (capacity : Nat) : (empty capacity).Exact where
  contains_iff hash := by simp [contains, empty, Table.contains]
  distinct := List.nodup_nil
  bounded := Nat.zero_le capacity

@[simp] theorem capacity_forgetOldest : memory.forgetOldest.capacity = memory.capacity := by
  unfold forgetOldest
  split <;> rfl

theorem order_forgetOldest : memory.forgetOldest.order = memory.order.tail := by
  unfold forgetOldest
  split
  · next isEmpty => rw [isEmpty, List.tail_nil]
  · next isCons => rw [isCons, List.tail_cons]

@[simp] theorem capacity_makeRoom : memory.makeRoom.capacity = memory.capacity := by
  unfold makeRoom
  split
  · exact capacity_forgetOldest
  · rfl

/-- The oldest hash is in the order once, so it is gone from the members and from the order. -/
theorem Exact.forgetOldest (exact_memory : memory.Exact) : memory.forgetOldest.Exact where
  contains_iff hash := by
    unfold RolledBack.forgetOldest
    split
    · exact exact_memory.contains_iff hash
    · next oldest rest isOrder =>
        have distinct := exact_memory.distinct
        rw [isOrder, List.nodup_cons] at distinct
        show (memory.members.erase oldest).contains hash = true ↔ hash ∈ rest
        rw [contains_erase_iff, exact_memory.contains_iff, isOrder, List.mem_cons]
        constructor
        · rintro ⟨other, isOldest | remembered⟩
          · exact absurd isOldest other
          · exact remembered
        · intro remembered
          refine ⟨?_, .inr remembered⟩
          rintro rfl
          exact distinct.1 remembered
  distinct := by
    rw [order_forgetOldest]
    exact exact_memory.distinct.tail
  bounded := by
    rw [order_forgetOldest, capacity_forgetOldest, List.length_tail]
    exact (Nat.sub_le _ 1).trans exact_memory.bounded

theorem Exact.makeRoom (exact_memory : memory.Exact) : memory.makeRoom.Exact := by
  unfold RolledBack.makeRoom
  split
  · exact exact_memory.forgetOldest
  · exact exact_memory

theorem Exact.append (exact_memory : memory.Exact) (new : memory.contains hash = false)
    (hasRoom : memory.order.length < memory.capacity) : (memory.append hash).Exact where
  contains_iff other := by
    show _ ↔ other ∈ memory.order ++ [hash]
    rw [contains_append_iff, exact_memory.contains_iff, List.mem_append, List.mem_singleton,
      or_comm]
  distinct := by
    have absent : hash ∉ memory.order := by
      rw [← exact_memory.contains_iff, new]
      exact Bool.false_ne_true
    exact List.nodup_append_comm.mp (List.nodup_cons.mpr ⟨absent, exact_memory.distinct⟩)
  bounded := by
    show (memory.order ++ [hash]).length ≤ memory.capacity
    rw [List.length_append, List.length_singleton]
    exact hasRoom

theorem length_makeRoom (hasRoom : memory.capacity ≠ 0) (exact_memory : memory.Exact) :
    memory.makeRoom.order.length < memory.capacity := by
  have bounded := exact_memory.bounded
  unfold makeRoom
  split
  · rw [order_forgetOldest, List.length_tail]
    omega
  · omega

/-- Making room brings no hash back. -/
theorem contains_makeRoom (exact_memory : memory.Exact) (new : memory.contains hash = false) :
    memory.makeRoom.contains hash = false := by
  apply eq_false_of_ne_true
  intro known
  rw [exact_memory.makeRoom.contains_iff] at known
  have inOrder : hash ∈ memory.order := by
    unfold makeRoom at known
    split at known
    · rw [order_forgetOldest] at known
      exact List.mem_of_mem_tail known
    · exact known
  rw [← exact_memory.contains_iff, new] at inOrder
  cases inOrder

theorem Exact.insert (exact_memory : memory.Exact) (hash : BlockHash) :
    (memory.insert hash).Exact := by
  by_cases noRoom : memory.capacity = 0
  · rw [insert_of_capacity_eq_zero noRoom]
    exact exact_memory
  · cases known : memory.contains hash with
    | true =>
        rw [insert_of_contains known]
        exact exact_memory
    | false =>
        rw [insert_of_new noRoom known]
        apply exact_memory.makeRoom.append (contains_makeRoom exact_memory known)
        rw [capacity_makeRoom]
        exact length_makeRoom noRoom exact_memory

@[simp] theorem capacity_insert : (memory.insert hash).capacity = memory.capacity := by
  by_cases noRoom : memory.capacity = 0
  · rw [insert_of_capacity_eq_zero noRoom]
  · cases known : memory.contains hash with
    | true => rw [insert_of_contains known]
    | false =>
        rw [insert_of_new noRoom known]
        exact capacity_makeRoom

/-- A new hash is the last of the order, which is cut at the front. -/
theorem order_insert (exact_memory : memory.Exact) (new : memory.contains hash = false) :
    (memory.insert hash).order = (memory.order ++ [hash]).rtake memory.capacity := by
  have bounded := exact_memory.bounded
  by_cases noRoom : memory.capacity = 0
  · rw [insert_of_capacity_eq_zero noRoom, noRoom, List.rtake_zero]
    exact List.length_eq_zero_iff.mp (by omega)
  · rw [insert_of_new noRoom new]
    show memory.makeRoom.order ++ [hash] = _
    rw [List.rtake, List.length_append, List.length_singleton]
    unfold makeRoom
    split
    · next isFull =>
        have one : memory.order.length + 1 - memory.capacity = 1 := by omega
        rw [order_forgetOldest, one, ← List.drop_one,
          List.drop_append_of_le_length (by omega)]
    · next hasRoom =>
        have none_dropped : memory.order.length + 1 - memory.capacity = 0 := by omega
        rw [none_dropped, List.drop_zero]

end Insertions

/-! ## Any sequence of insertions -/

/-- What is cut from the front of a list need not be there when the rest is cut. -/
theorem rtake_append_rtake (earlier later : List BlockHash) (count : Nat) :
    (earlier.rtake count ++ later).rtake count = (earlier ++ later).rtake count := by
  unfold List.rtake
  rw [← List.drop_append_of_le_length (Nat.sub_le _ count), List.drop_drop]
  congr 1
  rw [List.length_drop, List.length_append]
  omega

section Sequences

variable {memory : RolledBack} {hashes : List BlockHash}

theorem Exact.insertAll (exact_memory : memory.Exact) (hashes : List BlockHash) :
    (memory.insertAll hashes).Exact := by
  induction hashes generalizing memory with
  | nil => exact exact_memory
  | cons hash rest inductionHypothesis => exact inductionHypothesis (exact_memory.insert hash)

@[simp] theorem capacity_insertAll : (memory.insertAll hashes).capacity = memory.capacity := by
  induction hashes generalizing memory with
  | nil => rfl
  | cons hash rest inductionHypothesis => exact inductionHypothesis.trans capacity_insert

/-- The order is the end of what it was, followed by what was new. -/
theorem order_insertAll (exact_memory : memory.Exact) (hashes : List BlockHash) :
    (memory.insertAll hashes).order
      = (memory.order ++ memory.news hashes).rtake memory.capacity := by
  induction hashes generalizing memory with
  | nil =>
      rw [news, List.append_nil, List.rtake, Nat.sub_eq_zero_of_le exact_memory.bounded]
      rfl
  | cons hash rest inductionHypothesis =>
      have next := inductionHypothesis (exact_memory.insert hash)
      rw [capacity_insert] at next
      refine next.trans ?_
      cases known : memory.contains hash with
      | true => rw [news, if_pos known, insert_of_contains known]
      | false =>
          rw [news, if_neg (by simp [known]), order_insert exact_memory known,
            rtake_append_rtake, List.append_assoc]
          rfl

end Sequences

/-- The memory holds the latest hashes that were new to it, as many as it may. -/
structure RemembersLatest (capacity : Nat) (hashes : List BlockHash) (memory : RolledBack) :
    Prop where
  members_iff : ∀ hash, memory.members.get? hash = some () ↔ hash ∈ memory.order
  distinct : memory.order.Nodup
  bounded : memory.order.length ≤ capacity
  order_eq : memory.order = ((empty capacity).news hashes).rtake capacity
  contains_iff : ∀ hash,
    memory.contains hash = true ↔ hash ∈ ((empty capacity).news hashes).rtake capacity
  /-- A hash that is remembered changes nothing when it comes again, not even the order. -/
  unmoved : ∀ hash, memory.contains hash = true → memory.insert hash = memory

/-- Whatever hashes come, a memory holds the latest of those that were new. -/
theorem remembers_latest (capacity : Nat) (hashes : List BlockHash) :
    RemembersLatest capacity hashes ((empty capacity).insertAll hashes) := by
  have exact_start := exact_empty capacity
  have exact_end := exact_start.insertAll hashes
  have order_eq := order_insertAll exact_start hashes
  exact
    { members_iff := fun hash => by
        rw [← exact_end.contains_iff, contains, Table.contains_eq_true_iff]
        exact ⟨fun found => ⟨(), found⟩, fun ⟨_, found⟩ => found⟩
      distinct := exact_end.distinct
      bounded := exact_end.bounded.trans_eq capacity_insertAll
      order_eq := order_eq
      contains_iff := fun hash => by
        rw [exact_end.contains_iff, order_eq]
        rfl
      unmoved := fun _ known => insert_of_contains known }

/-- With room for two, a third hash drives the first one out, which is then new again. -/
example : ((empty 2).insertAll [⟨1⟩, ⟨2⟩, ⟨1⟩, ⟨3⟩, ⟨1⟩]).order = [⟨3⟩, ⟨1⟩] := by decide

end RolledBack

end AccountChains
