import AccountChains.Proofs.Intake.Settling

/-!
Contract: what is left to do in an intake, and that each step of its worker is some of it.

Handling a block may free any number of parked blocks, each of them is queued again, may
have to be checked again, and may be parked again; and a batch that checks blocks does
not count them. Still there is no cycle. A forced block is gone when it has been handled.
A block that is freed costs the block that has freed it, so that fewer blocks are under
way than before. A block that is queued goes through the stages of its way one by one,
and in between the worker goes through the places of its loop.

What is left to do is the `Load`, four numbers of which the first that changes is the one
that counts.

Owns: the load, and for each kind of step of the worker that it makes the load lighter.
Does not own: which steps there are, and what keeps the worker going.
-/

namespace AccountChains

open Ledger Tables

namespace Worker

variable {σ : Type}

/-- The forced block that the worker is about to handle. -/
def forced : Worker σ → List Handle
  | .handling _ (.forced block) => [block]
  | _ => []

/-- The worker has no blocks in hand. -/
structure Unladen (worker : Worker σ) : Prop where
  forced : worker.forced = []
  drained : worker.drained = []
  requeued : worker.requeued = []
  taken : worker.taken = []

/-- Whether the worker has been started and has not left. -/
def IsWorking : Worker σ → Prop
  | .absent | .finished | .crashed _ => False
  | .idle | .woken | .verifyingAhead .. | .opening | .choosing _ | .verifying .. | .handling ..
  | .requeueing .. | .committing _ | .emitting _ | .closing => True

/-- How many places of its loop the worker goes through until it takes something out of the
queues, or rests since there is nothing in them. -/
def places (hasBlocks : Bool) : Worker σ → Nat
  | .handling .. => 11
  | .verifying .. | .requeueing .. => 10
  | .choosing batch => if hasBlocks then if batch.processed = 0 then 1 else 9 else 4
  | .committing _ => if hasBlocks then 8 else 3
  | .emitting _ => if hasBlocks then 7 else 2
  | .closing => if hasBlocks then 6 else 1
  | .idle => if hasBlocks then 5 else 0
  | .woken => if hasBlocks then 4 else 7
  | .verifyingAhead .. => if hasBlocks then 3 else 6
  | .opening => if hasBlocks then 2 else 5
  | .absent | .finished | .crashed _ => 0

end Worker

/-! ## The load -/

/-- What is left to do for the worker. -/
structure Load where
  /-- The forced blocks; one that is taken out counts half. -/
  forced : Nat
  /-- The other blocks, be they queued, in the hands of the worker, or parked. -/
  underWay : Nat
  /-- The stages that these blocks have ahead until the worker handles them. -/
  stages : Nat
  /-- The places that the worker has ahead. -/
  places : Nat

namespace Load

/-- Of the numbers that are different, the first is smaller. -/
def Lighter (next load : Load) : Prop :=
  next.forced < load.forced ∨ next.forced = load.forced ∧
    (next.underWay < load.underWay ∨ next.underWay = load.underWay ∧
      (next.stages < load.stages ∨ next.stages = load.stages ∧ next.places < load.places))

/-- Nothing becomes lighter for ever. -/
theorem wellFounded_lighter : WellFounded Lighter := by
  have descends : WellFounded (Prod.Lex (· < ·) (Prod.Lex (· < ·) (Prod.Lex (· < ·) (· < ·))) :
      Nat × Nat × Nat × Nat → Nat × Nat × Nat × Nat → Prop) :=
    WellFounded.prod_lex wellFounded_lt (WellFounded.prod_lex wellFounded_lt
      (WellFounded.prod_lex wellFounded_lt wellFounded_lt))
  refine Subrelation.wf (fun {next load} lighter => ?_) (InvImage.wf
    (fun load : Load => (load.forced, load.underWay, load.stages, load.places)) descends)
  simp only [InvImage, Prod.lex_def]
  exact lighter

end Load

namespace Queues

/-- What is left to do, by the places of the blocks. A block that is freed has four stages ahead:
it is queued, taken out to be checked, put back, and taken out to be handled. -/
def load (store : Tables) (worker : Worker Tables) (queues : Queues) : Load where
  forced := 2 * queues.forced.length + worker.forced.length
  underWay := queues.ready.length + queues.unverified.length + worker.drained.length
    + worker.requeued.length + worker.taken.length + (worker.view store).parked.size
  stages := queues.ready.length + 2 * worker.drained.length + 3 * queues.unverified.length
    + 4 * worker.requeued.length
  places := worker.places queues.hasBlocks

end Queues

namespace Processor

/-- The ledger that the worker sees. -/
def view (processor : Processor Tables) : Tables := processor.worker.view processor.store

def load (processor : Processor Tables) : Load :=
  processor.queues.load processor.store processor.worker

/-- How many blocks there are, stored or not. -/
def census (processor : Processor Tables) : Nat :=
  processor.view.blocks.size + processor.load.underWay + processor.queues.forced.length
    + processor.worker.forced.length

/-- After a step less is left to do, no more blocks are there than before, and the worker sees a
coherent ledger. -/
structure Relieved (constants : LedgerConstants) (before after : Processor Tables) : Prop where
  lighter : after.load.Lighter before.load
  census : after.census ≤ before.census
  coherent : after.view.Coherent constants

variable {setup : IntakeSetup} {processor next : Processor Tables} {batch : Batch Tables}

/-! ## Steps -/

section Stepping

variable {constants : LedgerConstants} (coherent : processor.view.Coherent constants)

theorem view_of_batch {place : Worker Tables} (isPlace : processor.worker = place)
    (isOpen : place.batch? = some batch) : processor.view = batch.store := by
  rw [view, Worker.view, isPlace, isOpen]
  rfl

include coherent

/-- As long as the ledger is the same and no forced block is taken out or handled, it is the other
blocks and the worker that count. -/
theorem relieved_of_view (view : next.view = processor.view)
    (queued : next.queues.forced = processor.queues.forced)
    (inHand : next.worker.forced = processor.worker.forced)
    (lighter : next.load.underWay < processor.load.underWay ∨
      next.load.underWay = processor.load.underWay ∧
        (next.load.stages < processor.load.stages ∨
          next.load.stages = processor.load.stages ∧ next.load.places < processor.load.places)) :
    processor.Relieved constants next := by
  have forced : next.load.forced = processor.load.forced := by
    simp only [load, Queues.load, queued, inHand]
  refine ⟨.inr ⟨forced, lighter⟩, ?_, view ▸ coherent⟩
  simp only [census, view, queued, inHand]
  omega

/-- The worker goes on to another place, with nothing taken out of the queues or put back. -/
theorem relieved_of_places {place : Worker Tables} (isPlace : processor.worker = place)
    (ready : next.queues.ready = processor.queues.ready)
    (unverified : next.queues.unverified = processor.queues.unverified)
    (forced : next.queues.forced = processor.queues.forced)
    (view : next.view = place.view processor.store)
    (unladen : place.Unladen) (stillUnladen : next.worker.Unladen)
    (closer : next.worker.places processor.queues.hasBlocks
      < place.places processor.queues.hasBlocks) :
    processor.Relieved constants next := by
  subst isPlace
  have hasBlocks : next.queues.hasBlocks = processor.queues.hasBlocks := by
    rw [Queues.hasBlocks, ready, unverified, forced]
    rfl
  have parked : (next.worker.view next.store).parked
      = (processor.worker.view processor.store).parked := congrArg Tables.parked view
  refine relieved_of_view coherent view forced (by rw [unladen.forced, stillUnladen.forced])
    (.inr ⟨?_, .inr ⟨?_, ?_⟩⟩)
  · simp only [load, Queues.load, ready, unverified, parked, unladen.drained, unladen.requeued,
      unladen.taken, stillUnladen.drained, stillUnladen.requeued, stillUnladen.taken]
  · simp only [load, Queues.load, ready, unverified, unladen.drained, unladen.requeued,
      stillUnladen.drained, stillUnladen.requeued]
  · simp only [load, Queues.load, hasBlocks]
    exact closer

/-- Blocks that are taken out to be checked have one stage less ahead. -/
theorem relieved_of_drain {limit : Nat} {drained : List QueuedBlock} {queues : Queues}
    {place worker : Worker Tables} (isPlace : processor.worker = place)
    (drains : processor.queues.drain limit = (drained, queues)) (some : drained ≠ [])
    (view : worker.view processor.store = place.view processor.store)
    (unladen : place.Unladen) (holds : worker.drained = drained)
    (forced : worker.forced = []) (requeued : worker.requeued = []) (taken : worker.taken = []) :
    processor.Relieved constants { processor with queues, worker } := by
  subst isPlace
  have positive : 0 < drained.length := List.length_pos_iff.mpr some
  have parked := congrArg Tables.parked view
  obtain ⟨rfl, rfl⟩ := Prod.mk.inj drains
  have split := congrArg List.length (List.take_append_drop
    (min processor.queues.unverified.length (max limit 1)) processor.queues.unverified)
  rw [List.length_append] at split
  refine relieved_of_view coherent view rfl (by rw [unladen.forced, forced])
    (.inr ⟨?_, .inl ?_⟩)
  · simp only [load, Queues.load, unladen.drained, unladen.requeued, unladen.taken, holds, requeued,
      taken, parked, List.length_nil]
    omega
  · simp only [load, Queues.load, unladen.drained, unladen.requeued, holds, requeued,
      List.length_nil]
    omega

/-- Checked blocks that are put back have one stage less ahead, and those that are dropped have
come to an end. If there are none, the worker goes on to another place. -/
theorem relieved_of_putBack (snapshot : Tables) {place worker : Worker Tables}
    (isPlace : processor.worker = place)
    (view : worker.view processor.store = place.view processor.store)
    (forced : place.forced = []) (requeued : place.requeued = []) (taken : place.taken = [])
    (unladen : worker.Unladen)
    (closer : worker.places processor.queues.hasBlocks < place.places processor.queues.hasBlocks) :
    processor.Relieved constants
      { processor.putBack setup snapshot place.drained with worker } := by
  subst isPlace
  obtain ⟨hashes, metrics, isPut, -⟩ :=
    processor.putBack_spec setup snapshot processor.worker.drained
  have parked := congrArg Tables.parked view
  rw [isPut]
  have fewer := List.length_filter_le
    (fun item : QueuedBlock => !item.isDropped setup.constants.epochs snapshot)
    processor.worker.drained
  refine relieved_of_view coherent view rfl (by rw [unladen.forced, forced]) ?_
  cases drained : processor.worker.drained with
  | nil =>
      refine .inr ⟨?_, .inr ⟨?_, ?_⟩⟩
      · simp [load, Queues.load, drained, requeued, taken, unladen.drained, unladen.requeued,
          unladen.taken, parked]
      · simp [load, Queues.load, drained, requeued, unladen.drained, unladen.requeued]
      · simpa [load, Queues.load, Queues.hasBlocks] using closer
  | cons first rest =>
      simp only [load, Queues.load, drained, requeued, taken, unladen.drained, unladen.requeued,
        unladen.taken, parked, List.length_append, List.length_map, List.length_nil,
        List.length_cons] at fewer ⊢
      omega

/-- A block that is taken out to be handled has no stage ahead. A forced one counts half as long as
the worker has it in hand. -/
theorem relieved_of_take {taken : Queues.Taken} {queues : Queues}
    (choosing : processor.worker = .choosing batch)
    (takes : processor.queues.take? = some (taken, queues)) :
    processor.Relieved constants { processor with queues, worker := .handling batch taken } := by
  have isView : processor.view = batch.store := view_of_batch choosing rfl
  rw [isView] at coherent
  unfold Queues.take? at takes
  split at takes
  · next block rest isForced =>
      obtain ⟨rfl, rfl⟩ := Prod.mk.inj (Option.some.inj takes)
      refine ⟨.inl ?_, ?_, coherent⟩
      · simp only [load, Queues.load, choosing, isForced, Worker.forced, List.length_cons,
          List.length_nil]
        omega
      · simp only [census, load, Queues.load, view, choosing, isForced, Worker.forced,
          Worker.drained, Worker.requeued, Worker.taken, Worker.view, Worker.batch?,
          Option.map_some, Option.getD_some, List.length_cons, List.length_nil]
        omega
  · next item rest unforced isReady =>
      obtain ⟨rfl, rfl⟩ := Prod.mk.inj (Option.some.inj takes)
      refine relieved_of_view (isView ▸ coherent) isView.symm rfl (by rw [choosing]; rfl)
        (.inr ⟨?_, .inl ?_⟩)
      · simp only [load, Queues.load, Queues.release, choosing, isReady, Worker.drained,
          Worker.requeued, Worker.taken, Worker.view, Worker.batch?, Option.map_some,
          Option.getD_some, List.length_cons, List.length_nil]
        omega
      · simp only [load, Queues.load, Queues.release, choosing, isReady, Worker.drained,
          Worker.requeued, List.length_cons, List.length_nil]
        omega
  · cases takes

omit coherent in
/-- When the worker goes on after it has handled a block, the batch is open and nothing is in its
hands but what it has freed. -/
theorem Settled.goes_on {block : Block} {store : Tables} {worker : Worker Tables}
    (settled : Settled constants block store worker) (working : worker.IsWorking) :
    ∃ after, worker.batch? = some after ∧
      Settles constants block store after.store worker.requeued ∧
      (worker.forced = [] ∧ worker.drained = [] ∧ worker.taken = []) ∧
      ∀ hasBlocks, worker.places hasBlocks ≤ 10 := by
  cases settled with
  | full => exact working.elim
  | @done after settles =>
      refine ⟨after, rfl, settles, ⟨rfl, rfl, rfl⟩, fun hasBlocks => ?_⟩
      simp only [Worker.places]
      split
      · split <;> omega
      · omega
  | @frees after item requeue settles =>
      exact ⟨after, rfl, settles, ⟨rfl, rfl, rfl⟩, fun _ => le_rfl⟩

section Handling

variable {taken : Queues.Taken} (handling : processor.worker = .handling batch taken)

omit coherent

include handling

/-- The block in hand is counted, be it forced or not. -/
theorem length_inHand : processor.worker.forced.length = 1 ∧ processor.worker.taken.length = 0 ∨
    processor.worker.forced.length = 0 ∧ processor.worker.taken.length = 1 := by
  rw [handling]
  cases taken with
  | forced block => exact .inl ⟨rfl, rfl⟩
  | ready item => exact .inr ⟨rfl, rfl⟩

theorem census_of_full (isFull : UInt64.size ≤ batch.store.blocks.size + 1) :
    UInt64.size ≤ processor.census := by
  have isView : processor.view = batch.store := view_of_batch handling rfl
  have inHand := length_inHand handling
  simp only [census, load, Queues.load, isView]
  omega

/-- Handling a block leaves one block less to handle, or that block parked. -/
theorem relieved_of_settled {worker : Worker Tables} {metrics : Metrics}
    (rolledBack : RolledBack)
    (settled : Settled constants taken.handle.block batch.store worker)
    (working : worker.IsWorking) : processor.Relieved constants
      { processor with queues := { processor.queues with rolledBack }, worker, metrics } := by
  have isView : processor.worker.view processor.store = batch.store := view_of_batch handling rfl
  have inHand := length_inHand handling
  have undrained : processor.worker.drained = [] := by rw [handling]; rfl
  have unfreed : processor.worker.requeued = [] := by rw [handling]; rfl
  have place (hasBlocks : Bool) : processor.worker.places hasBlocks = 11 := by rw [handling]; rfl
  obtain ⟨after, isOpen, settles, ⟨noForced, noDrained, noTaken⟩, closer⟩ :=
    settled.goes_on working
  have isAfter : worker.view processor.store = after.store := by
    rw [Worker.view, isOpen]
    rfl
  have total := settles.total
  have fewer := settles.fewer.imp_right (And.imp_left (congrArg List.length))
  have closer := closer processor.queues.hasBlocks
  refine ⟨?_, ?_, ?_⟩
  · simp only [Load.Lighter, load, Queues.load, Queues.hasBlocks, isView, isAfter, undrained,
      unfreed, noForced, noDrained, noTaken, place, List.length_nil] at closer fewer ⊢
    omega
  · simp only [census, load, Queues.load, view, isView, isAfter, undrained, unfreed, noForced,
      noDrained, noTaken, List.length_nil]
    omega
  · rw [view, isAfter]
    exact settles.coherent

end Handling

/-- A block that is queued again has one stage less ahead, and one that is turned away has come to
an end. -/
theorem relieved_of_arrives {item other : QueuedBlock} {requeue : Requeue} {waiting : ParkedBlock}
    {rest : List ParkedBlock} (requeueing : processor.worker = .requeueing batch item requeue)
    (isNext : requeue.rest = waiting :: rest) (arrives : Arrives setup other processor next) :
    processor.Relieved constants
      { next with worker := .requeueing batch item { requeue with rest } } := by
  have isView : processor.view = batch.store := view_of_batch requeueing rfl
  cases arrives with
  | turnedAway =>
      refine relieved_of_view coherent isView.symm rfl (by rw [requeueing]; rfl) (.inl ?_)
      simp only [load, Queues.load, requeueing, isNext, Worker.drained, Worker.requeued,
        Worker.taken, Worker.view, Worker.batch?, Option.map_some, Option.getD_some,
        List.length_cons, List.length_nil]
      omega
  | queued =>
      refine relieved_of_view coherent isView.symm (Queues.forced_enqueue _ _ _)
        (by rw [requeueing]; rfl) (.inr ⟨?_, .inl ?_⟩)
      all_goals
        simp only [load, Queues.load, Queues.toLanes_enqueue, Queues.forced_enqueue,
          Lanes.ready_enqueue, Lanes.unverified_enqueue, requeueing, isNext, Worker.drained,
          Worker.requeued, Worker.taken, Worker.view, Worker.batch?, Option.map_some,
          Option.getD_some, List.length_append, List.length_cons, List.length_nil]
        split <;> simp only [List.length_cons, List.length_nil] <;> omega

end Stepping

/-- A batch only ends when there are no blocks or when it has handled some. -/
theorem places_of_halts {settings : IntakeSettings} {elapsed : Nat}
    (running : processor.queues.stopped = false)
    (halts : goesOn settings elapsed processor.queues batch = false) :
    (Worker.committing batch).places processor.queues.hasBlocks
      < (Worker.choosing batch).places processor.queues.hasBlocks := by
  cases hasBlocks : processor.queues.hasBlocks with
  | false => simp [Worker.places]
  | true =>
      have handled : batch.processed ≠ 0 := by
        intro none
        simp [goesOn, running, hasBlocks, none] at halts
      simp [Worker.places, handled]

end Processor

end AccountChains
