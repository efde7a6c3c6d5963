import AccountChains.Proofs.Intake.Charter

/-!
Contract: one step of the worker, with everything that decides it.

The worker goes from one place of its loop to the next. Which place comes next is
decided by the queues, by what it has in hand and by the time that its batch has taken;
the moves of an intake leave some of that open, since most invariants hold whatever is
decided. Here each step is told with its guards: when the worker wakes and when it
leaves, when a batch goes on and when it ends, and that whatever it takes out of the
queues was there.

Owns: `Strides`, and that every step of the worker is one. Does not own: the steps of
other threads, and what handling a block comes to.
-/

namespace AccountChains

open Ledger Tables

namespace Queues

/-- The copy of a block that is taken to be handled. -/
def Taken.handle : Taken → Handle
  | .forced block => block
  | .ready item => item.handle

variable {limit : Nat} {queues : Queues}

theorem mem_handles {handle : Handle} : handle ∈ queues.handles ↔
    (∃ item ∈ queues.items, item.handle = handle) ∨ handle ∈ queues.forced := by
  unfold handles Lanes.items
  rw [← List.map_append, List.mem_append, List.mem_map]

variable (queues) in
/-- That a block has lost is remembered apart from what is queued. -/
theorem exists_remember (loser : Option BlockHash) :
    ∃ rolledBack, queues.remember loser = { queues with rolledBack } := by
  cases loser with
  | none => exact ⟨queues.rolledBack, rfl⟩
  | some loser => exact ⟨_, rfl⟩

variable (limit queues) in
/-- At least one block is taken out to be checked, if there is any. -/
theorem isEmpty_drained : (queues.drain limit).1.isEmpty = queues.unverified.isEmpty := by
  unfold drain
  cases queues.unverified with
  | nil => rfl
  | cons item rest =>
      obtain ⟨count, isCount⟩ : ∃ count, min (rest.length + 1) (max limit 1) = count + 1 :=
        Nat.exists_eq_succ_of_ne_zero (by omega)
      simp only [List.length_cons, isCount, List.take_succ_cons, List.isEmpty_cons]

/-- What was queued is still queued, or has been taken out to be checked. -/
theorem mem_handles_drain {handle : Handle} {drained : List QueuedBlock} {rest : Queues}
    (drains : queues.drain limit = (drained, rest)) : handle ∈ queues.handles ↔
      handle ∈ rest.handles ∨ handle ∈ drained.map QueuedBlock.handle := by
  simp only [mem_handles, forced_drain drains, mem_items_drain drains, List.mem_map, or_and_right,
    exists_or]
  rw [or_assoc, or_comm]

/-- What was queued is still queued, or has been taken out to be handled. -/
theorem mem_handles_take {handle : Handle} {taken : Taken} {rest : Queues}
    (takes : queues.take? = some (taken, rest)) :
    handle ∈ queues.handles ↔ handle ∈ rest.handles ∨ handle = taken.handle := by
  simp only [mem_handles, Lanes.items]
  unfold take? at takes
  split at takes
  · next isForced =>
      obtain ⟨rfl, rfl⟩ := Prod.mk.inj (Option.some.inj takes)
      rw [isForced, List.mem_cons, or_assoc]
      exact or_congr_right or_comm
  · next unforced isReady =>
      obtain ⟨rfl, rfl⟩ := Prod.mk.inj (Option.some.inj takes)
      simp only [isReady, List.cons_append, List.mem_cons, or_and_right, exists_or,
        exists_eq_left, Taken.handle, release]
      rw [eq_comm, or_assoc, or_comm]
  · cases takes

theorem empty_of_take? (takes : queues.take? = none) : queues.forced = [] ∧ queues.ready = [] := by
  unfold take? at takes
  cases forced : queues.forced with
  | cons block rest => simp [forced] at takes
  | nil =>
      cases ready : queues.ready with
      | cons item rest => simp [forced, ready] at takes
      | nil => exact ⟨rfl, rfl⟩

end Queues

namespace Processor

variable {setup : IntakeSetup} {moment : Moment} {processor next : Processor Tables}

/-- What the worker does in one step. -/
inductive Strides (setup : IntakeSetup) (moment : Moment) (processor : Processor Tables) :
    Processor Tables → Prop where
  | finishes (idle : processor.worker = .idle) (stopped : processor.queues.stopped) :
      Strides setup moment processor { processor with worker := .finished }
  | wakes (idle : processor.worker = .idle) (hasBlocks : processor.queues.hasBlocks) :
      Strides setup moment processor
        { processor with queues := { processor.queues with active := true }, worker := .woken }
  | skips (woken : processor.worker = .woken) (nothing : processor.queues.unverified = []) :
      Strides setup moment processor { processor with worker := .opening }
  | drainsAhead {drained : List QueuedBlock} {queues : Queues}
      (woken : processor.worker = .woken)
      (drains : processor.queues.drain setup.settings.maxVerificationBatch.toNat
        = (drained, queues)) (some : drained ≠ []) :
      Strides setup moment processor
        { processor with queues, worker := .verifyingAhead processor.store drained }
  | returnsAhead {snapshot : Tables} {drained : List QueuedBlock}
      (verifying : processor.worker = .verifyingAhead snapshot drained) :
      Strides setup moment processor
        { processor.putBack setup snapshot drained with worker := .opening }
  | opens (opening : processor.worker = .opening) (alone : processor.direct = none) :
      Strides setup moment processor
        { processor with worker := .choosing ⟨processor.store, [], 0⟩ }
  | drains {batch : Batch Tables} {drained : List QueuedBlock} {queues : Queues}
      (choosing : processor.worker = .choosing batch)
      (drains : processor.queues.drain setup.settings.maxVerificationBatch.toNat
        = (drained, queues)) (some : drained ≠ []) :
      Strides setup moment processor { processor with queues, worker := .verifying batch drained }
  | takes {batch : Batch Tables} {taken : Queues.Taken} {queues : Queues}
      (choosing : processor.worker = .choosing batch)
      (takes : processor.queues.take? = some (taken, queues)) :
      Strides setup moment processor { processor with queues, worker := .handling batch taken }
  | ends {batch : Batch Tables} {metrics : Metrics} (choosing : processor.worker = .choosing batch)
      (halts : goesOn setup.settings moment.elapsed processor.queues batch = false) :
      Strides setup moment processor { processor with metrics, worker := .committing batch }
  | returns {batch : Batch Tables} {drained : List QueuedBlock}
      (verifying : processor.worker = .verifying batch drained) :
      Strides setup moment processor
        { processor.putBack setup batch.store drained with worker := .choosing batch }
  | handles {batch : Batch Tables} {taken : Queues.Taken}
      (handling : processor.worker = .handling batch taken) :
      Strides setup moment processor (processor.handle setup moment.now batch taken)
  | requeues {batch : Batch Tables} {item : QueuedBlock} {requeue : Requeue}
      {waiting : ParkedBlock} {rest : List ParkedBlock} {next : Processor Tables}
      (requeueing : processor.worker = .requeueing batch item requeue)
      (isNext : requeue.rest = waiting :: rest)
      (brought : processor.addParked setup waiting = .ok next) :
      Strides setup moment processor
        { next with worker := .requeueing batch item { requeue with rest } }
  | requeued {batch : Batch Tables} {item : QueuedBlock} {requeue : Requeue} {metrics : Metrics}
      (requeueing : processor.worker = .requeueing batch item requeue)
      (isDone : requeue.rest = []) :
      Strides setup moment processor { processor with
        metrics
        worker := .choosing { batch with
          events := batch.events ++ [.gapResolved requeue.dependency]
          processed := batch.processed + 1 } }
  | requeuesWeak {batch : Batch Tables} {item : QueuedBlock} {requeue : Requeue}
      {waiting : ParkedBlock} {rest : List ParkedBlock}
      (requeueing : processor.worker = .requeueing batch item requeue)
      (isNext : requeue.rest = waiting :: rest)
      (weak : setup.work.accepts waiting.block = false) :
      Strides setup moment processor
        { processor with worker := .crashed (.insufficientWork waiting.block.hash) }
  | commits {batch : Batch Tables} (committing : processor.worker = .committing batch) :
      Strides setup moment processor
        { processor with store := batch.store, worker := .emitting batch.events }
  | emits {events : List Event} {metrics : Metrics}
      (emitting : processor.worker = .emitting events) :
      Strides setup moment processor
        { processor with emitted := processor.emitted ++ events, metrics, worker := .closing }
  | closes (closing : processor.worker = .closing) :
      Strides setup moment processor
        { processor with queues := { processor.queues with active := false }, worker := .idle }

/-- A batch that goes on finds something to check or to handle. -/
theorem strides_choose {batch : Batch Tables} (choosing : processor.worker = .choosing batch) :
    Strides setup moment processor (processor.choose setup.settings moment.elapsed batch) := by
  unfold choose
  by_cases goes : goesOn setup.settings moment.elapsed processor.queues batch
  · simp only [goes, Bool.not_true, Bool.false_eq_true, if_false]
    by_cases verifies : verifiesNext processor.queues batch
    · simp only [if_pos verifies, drain]
      refine .drains choosing rfl fun none => ?_
      have nothing := processor.queues.isEmpty_drained setup.settings.maxVerificationBatch.toNat
      rw [none] at nothing
      simp [verifiesNext, ← nothing] at verifies
    · simp only [if_neg verifies]
      cases takes : processor.queues.take? with
      | some result => exact .takes choosing takes
      | none =>
          -- Blocks that are neither forced nor ready have to be checked, and nothing else is.
          obtain ⟨unforced, unready⟩ := Queues.empty_of_take? takes
          simp [goesOn, Queues.hasBlocks, unforced, unready] at goes
          simp [verifiesNext, unready, goes.1.2] at verifies
  · simp only [goes, Bool.not_false, if_true]
    exact .ends choosing (by simpa using goes)

/-- Every step of the worker is one of the strides. -/
theorem strides_advance (steps : processor.advance setup moment = some next) :
    Strides setup moment processor next := by
  unfold advance at steps
  cases worker : processor.worker with
  | absent | finished | crashed cause => simp [worker] at steps
  | idle =>
      simp only [worker] at steps
      split at steps
      · next stopped =>
          obtain rfl := Option.some.inj steps
          exact .finishes worker stopped
      split at steps
      · next hasBlocks =>
          obtain rfl := Option.some.inj steps
          exact .wakes worker hasBlocks
      · cases steps
  | woken =>
      simp only [worker] at steps
      split at steps
      · next empty =>
          obtain rfl := Option.some.inj steps
          simp only [drain, Queues.drain_of_isEmpty empty]
          refine .skips worker ?_
          simpa only [drain, Queues.isEmpty_drained, List.isEmpty_iff] using empty
      · next some =>
          obtain rfl := Option.some.inj steps
          exact .drainsAhead worker rfl (by simpa using some)
  | verifyingAhead snapshot drained =>
      obtain rfl : _ = next := by simpa [worker] using steps
      exact .returnsAhead worker
  | opening =>
      simp only [worker] at steps
      split at steps
      · cases steps
      · next alone =>
          obtain rfl := Option.some.inj steps
          exact .opens worker (by simpa using alone)
  | choosing batch =>
      obtain rfl : _ = next := by simpa [worker] using steps
      exact strides_choose worker
  | verifying batch drained =>
      obtain rfl : _ = next := by simpa [worker] using steps
      exact .returns worker
  | handling batch taken =>
      obtain rfl : _ = next := by simpa [worker] using steps
      exact .handles worker
  | requeueing batch item requeue =>
      simp only [worker, requeueNext] at steps
      cases isNext : requeue.rest with
      | nil =>
          simp only [isNext] at steps
          obtain rfl := Option.some.inj steps
          exact .requeued worker isNext
      | cons waiting rest =>
          simp only [isNext] at steps
          cases brought : processor.addParked setup waiting with
          | error cause =>
              obtain ⟨weak, rfl⟩ := weak_of_enqueue brought
              rw [brought] at steps
              obtain rfl := Option.some.inj steps
              exact .requeuesWeak worker isNext weak
          | ok added =>
              rw [brought] at steps
              obtain rfl := Option.some.inj steps
              exact .requeues worker isNext brought
  | committing batch =>
      obtain rfl : _ = next := by simpa [worker] using steps
      exact .commits worker
  | emitting events =>
      obtain rfl : _ = next := by simpa [worker] using steps
      exact .emits worker
  | closing =>
      obtain rfl : _ = next := by simpa [worker] using steps
      exact .closes worker

end Processor

end AccountChains
