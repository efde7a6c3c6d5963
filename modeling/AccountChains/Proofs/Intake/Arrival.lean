import AccountChains.Intake.Schedule
import AccountChains.Proofs.Intake.Handling
import AccountChains.Proofs.Intake.Transit

/-!
Contract: blocks may arrive in any order.

Blocks that a ledger takes in one after another may be submitted to an intake in any
order, between any steps of its worker. When the intake has nothing more to do, all
of them are in the ledger, which is then the same up to the times at which blocks
were taken in, and no block is parked any more.

The reason is that no block gets lost on its way: each step of an intake keeps the
invariant of `Transit`.

Owns: the place of each block in an intake, and the outcome of a delivery. Does not
own: that the intake gets to its end.
-/

namespace AccountChains

open BlockTable Ledger

/-! ## Shared copies -/

namespace Interner

/-- Neither these blocks nor the entries confuse one of these blocks with another one. -/
structure Tells (plan : List Block) (interner : Interner) : Prop where
  apart : ∀ block ∈ plan, ∀ other ∈ plan, digest block = digest other → block = other
  filed : ∀ block ∈ plan, ∀ shared, interner.entries.get? (digest block) = some shared →
    shared.block = block

variable {plan : List Block} {interner : Interner} {offered : Handle} {isHeld : Handle → Bool}

theorem Tells.sweep (tells : interner.Tells plan) : (interner.sweep isHeld).Tells plan := by
  refine ⟨tells.apart, fun block planned shared found => ?_⟩
  rw [Interner.sweep, Table.get?_restrict, Option.filter_eq_some_iff] at found
  exact tells.filed block planned shared found.1

theorem Tells.enter (tells : interner.Tells plan) (planned : offered.block ∈ plan) :
    (interner.enter isHeld offered).Tells plan := by
  have entered : Tells plan ⟨interner.entries.insert (digest offered.block) offered,
      interner.insertions + 1⟩ := by
    refine ⟨tells.apart, fun block isPlanned shared found => ?_⟩
    rw [Table.get?_insert] at found
    split at found
    · next same =>
        obtain rfl := Option.some.inj found
        exact (tells.apart block isPlanned _ planned same).symm
    · exact tells.filed block isPlanned shared found
  unfold Interner.enter
  dsimp only
  split
  · exact entered.sweep
  · exact entered

/-- The copy to use is a copy of the same block. -/
theorem Tells.intern (tells : interner.Tells plan) (planned : offered.block ∈ plan) :
    (interner.intern isHeld offered).1.block = offered.block ∧
      (interner.intern isHeld offered).2.Tells plan := by
  unfold Interner.intern
  split
  · next shared found =>
      split
      · exact ⟨tells.filed _ planned shared found, tells⟩
      · exact ⟨rfl, tells.enter planned⟩
  · exact ⟨rfl, tells.enter planned⟩

end Interner

/-! ## Where the blocks are -/

namespace Worker

variable {σ : Type}

/-- The block that the worker handles. -/
def taken : Worker σ → List QueuedBlock
  | .handling _ (.ready item) => [item]
  | _ => []

/-- The parked blocks that the worker is about to queue again. -/
def requeued : Worker σ → List ParkedBlock
  | .requeueing _ _ requeue => requeue.rest
  | _ => []

/-- Whether the worker waits, or has not been started. -/
def isWaiting : Worker σ → Bool
  | .absent | .idle => true
  | _ => false

theorem isWaiting_iff {worker : Worker σ} :
    worker.isWaiting ↔ worker = .absent ∨ worker = .idle := by
  cases worker <;> simp [isWaiting]

/-- The ledger that the worker sees: its open transaction, else what is committed. -/
def view (store : σ) (worker : Worker σ) : σ := (worker.batch?.map Batch.store).getD store

/-- The worker is at its work: it does not handle forced blocks, and it verifies against what is
committed. -/
def AtWork (store : σ) : Worker σ → Prop
  | .finished | .crashed _ | .handling _ (.forced _) => False
  | .verifyingAhead snapshot _ => snapshot = store
  | _ => True

end Worker

namespace Queues

/-- The blocks under way, by their places. -/
def transit (view : Tables) (worker : Worker Tables) (queues : Queues) : Transit :=
  ⟨queues.toLanes, view, worker.drained, worker.taken, worker.requeued⟩

/-- If no verdict is final, all blocks are ready after the check. -/
theorem settleAll_eq {verdict : QueuedBlock → Verification} (items : List QueuedBlock)
    (passed : ∀ item ∈ items, verdict item ≠ .invalid) (queues : Queues) :
    queues.settleAll (items.zip (items.map verdict)) = { queues with
      ready := queues.ready ++ items.map fun item => { item with verified := verdict item } } := by
  rw [settleAll_eq_filter, List.filter_eq_self.mpr (by simpa using passed),
    List.filter_eq_nil_iff.mpr (by simpa using passed)]
  rfl

end Queues

namespace Processor

/-- The blocks under way, with the ledger that the worker sees. -/
def transit (processor : Processor Tables) : Transit :=
  processor.queues.transit (processor.worker.view processor.store) processor.worker

/-- Nothing stands in the way of a delivery: no block is forced or turned away, the intake is not
stopped, and no call goes past its queues. -/
structure Undisturbed (plan : List Block) (forced : List Handle) (rolledBack : RolledBack)
    (stopped : Bool) (direct : Option (DirectCall Tables)) (interner : Interner) : Prop where
  unforced : forced = []
  forgiving : ∀ hash, rolledBack.contains hash = false
  running : stopped = false
  alone : direct = none
  tells : interner.Tells plan

/-- A delivery is under way: `todo` is still to arrive, and nothing else is going on. -/
structure Delivers (setup : IntakeSetup) (first final : Tables) (plan todo : List Block)
    (processor : Processor Tables) : Prop where
  tracks : processor.transit.Tracks setup.constants first final plan todo
  atWork : processor.worker.AtWork processor.store
  undisturbed : Undisturbed plan processor.queues.forced processor.queues.rolledBack
    processor.queues.stopped processor.direct processor.interner

variable {setup : IntakeSetup} {first final : Tables} {plan todo : List Block}
  {processor next : Processor Tables} {item : QueuedBlock}

/-! ### Arrivals -/

variable (processor item) in
/-- A block that arrives, for the first time or again, is queued. -/
theorem exists_enqueue {view : Tables} {worker : Worker Tables}
    (delivery : Delivery setup first final plan)
    (tracks : (processor.queues.transit view worker).Tracks setup.constants first final plan
      (item.block :: todo))
    (undisturbed : Undisturbed plan processor.queues.forced processor.queues.rolledBack
      processor.queues.stopped processor.direct processor.interner)
    (unvouched : item.account = .zero) :
    ∃ queues interner, processor.enqueue setup item = .ok { processor with interner, queues } ∧
      (queues.transit view worker).Tracks setup.constants first final plan todo ∧
      Undisturbed plan queues.forced queues.rolledBack queues.stopped processor.direct
        interner := by
  have outside : 1 ≤ (item.block :: todo).count item.block := by simp
  have planned := (tracks.outstanding (Nat.le_add_right_of_le outside)).1
  have unlisted := tracks.unlisted delivery (Nat.le_add_right_of_le outside)
  have free : processor.queues.refuses item.hash = false := by
    rw [Queues.refuses, undisturbed.forgiving, Bool.or_false]
    exact unlisted
  have interned : (processor.interner.intern
        (fun handle => processor.handles.contains handle) item.handle).1.block = item.block ∧
      (processor.interner.intern
        (fun handle => processor.handles.contains handle) item.handle).2.Tells plan :=
    undisturbed.tells.intern planned
  generalize answer : processor.interner.intern
    (fun handle => processor.handles.contains handle) item.handle = copy at interned
  obtain ⟨shared, interner⟩ := copy
  obtain ⟨same, tells⟩ := interned
  refine ⟨processor.queues.enqueue item.hash { item with handle := shared }, interner, ?_, ?_, ?_⟩
  · simp only [enqueue, delivery.accepts item.block planned, free, answer, Bool.not_true,
      Bool.false_eq_true, if_false]
  · -- The shared copy may be another one, but it is a copy of the same block.
    have sameHash : item.hash = QueuedBlock.hash { item with handle := shared } :=
      congrArg Block.hash same.symm
    have sameBlock : item.block = QueuedBlock.block { item with handle := shared } := same.symm
    rw [sameHash]
    rw [sameBlock] at tracks
    exact tracks.enqueue unvouched
  · refine { undisturbed with unforced := ?_, forgiving := ?_, running := ?_, tells }
    · rw [Queues.forced_enqueue, undisturbed.unforced]
    · rw [Queues.rolledBack_enqueue]
      exact undisturbed.forgiving
    · rw [Queues.stopped_enqueue, undisturbed.running]

/-- Whatever the worker is doing, a block may arrive. -/
theorem Delivers.add {block : Block} (delivery : Delivery setup first final plan)
    (delivers : Delivers setup first final plan (block :: todo) processor)
    (arrival : Timestamp) : ∃ next, processor.add setup block arrival = .ok next ∧
      next.Delivers setup first final plan todo := by
  obtain ⟨queues, interner, queued, tracks, undisturbed⟩ :=
    exists_enqueue (processor.copy block).2 (.plain (processor.copy block).1 arrival) delivery
      delivers.tracks delivers.undisturbed rfl
  exact ⟨_, queued, tracks, delivers.atWork, undisturbed⟩

/-! ### Steps of the worker -/

variable (processor) in
theorem putBack_eq {drained : List QueuedBlock} {view : Tables}
    (absent : ∀ item ∈ drained, view.blocks.contains item.hash = false)
    (passed : ∀ item ∈ drained, item.checked setup.constants.epochs ≠ .invalid) :
    ∃ metrics, processor.putBack setup view drained = { processor with
      queues := { processor.queues with
        ready := processor.queues.ready ++ drained.map fun item =>
          { item with verified := item.checked setup.constants.epochs } }
      metrics } := by
  have committed : drained.filter (fun item => Store.hasBlock view item.hash) = [] :=
    List.filter_eq_nil_iff.mpr fun item member => by simp [Store.hasBlock, absent item member]
  have fresh : drained.filter (fun item => !Store.hasBlock view item.hash) = drained :=
    List.filter_eq_self.mpr fun item member => by simp [Store.hasBlock, absent item member]
  unfold putBack
  simp only [committed, fresh, List.foldl_nil, QueuedBlock.verifyAll_eq,
    Queues.settleAll_eq drained passed]
  exact ⟨_, rfl⟩

/-- Blocks that are being verified are not in the ledger, and none is dropped. -/
theorem tracks_putBack {queues : Queues} {view : Tables} {worker : Worker Tables}
    (delivery : Delivery setup first final plan)
    (tracks : (queues.transit view worker).Tracks setup.constants first final plan todo) :
    (∀ item ∈ worker.drained, view.blocks.contains item.hash = false) ∧
      ∀ item ∈ worker.drained, item.checked setup.constants.epochs ≠ .invalid := by
  have inQueue (item : QueuedBlock) (member : item ∈ worker.drained) :
      item ∈ (queues.transit view worker).queued ++ (queues.transit view worker).taken :=
    List.mem_append_left _ (List.mem_append_right _ member)
  refine ⟨fun item member => (tracks.outstanding_item (inQueue item member)).2, ?_⟩
  intro item member
  obtain ⟨sideband, due⟩ :=
    tracks.due delivery (tracks.outstanding_item (inQueue item member))
  exact QueuedBlock.checked_of_suits due.suits delivery.unlinked
    (tracks.unvouched item (inQueue item member))
    (tracks.naming item (List.mem_append_right _ member))

theorem Delivers.handle {batch : Batch Tables} {now : Timestamp}
    (delivery : Delivery setup first final plan)
    (delivers : Delivers setup first final plan todo processor)
    (handling : processor.worker = .handling batch (.ready item)) :
    (processor.offer setup now item batch).Delivers setup first final plan todo := by
  have tracks := delivers.tracks
  rw [transit, handling] at tracks
  have member : item ∈ (processor.queues.transit batch.store
      (.handling batch (.ready item))).queued ++ [item] := by simp
  obtain ⟨sideband, due⟩ := tracks.due delivery (tracks.outstanding_item member)
  have handles : Bench.Handles setup.constants final now item
      ⟨batch.store, batch.events, processor.metrics⟩
      (Bench.offer setup now item ⟨batch.store, batch.events, processor.metrics⟩) :=
    Bench.handles_offer delivery.sound delivery.deletes now due
  unfold offer
  cases handled : Bench.offer setup now item ⟨batch.store, batch.events, processor.metrics⟩ with
  | mk outcome bench =>
    rw [handled] at handles
    cases handles with
    | @landed receipt requeue sideband events metrics found coherent waiting =>
        have landed : Transit.Tracks setup.constants first final plan todo
            ⟨processor.queues.toLanes,
              { batch.store.append ⟨item.block, { sideband with timestamp := now }⟩ with
                parked := batch.store.parked.restrict fun key _ => key.dependency ≠ item.hash },
              [], [],
              (batch.store.parked.filter fun key => key.dependency == item.hash).map Prod.snd⟩ :=
          tracks.land delivery rfl found rfl coherent
        rw [← waiting] at landed
        cases requeue with
        | none | some requeue => exact ⟨landed, trivial, delivers.undisturbed⟩
    | @parked receipt dependency verified events metrics missing depends expected =>
        exact ⟨tracks.park delivery rfl verified missing depends expected, trivial,
          delivers.undisturbed⟩

theorem requeueNext_eq {requeue : Requeue} {waiting : ParkedBlock} {rest : List ParkedBlock}
    (isNext : requeue.rest = waiting :: rest)
    (added : processor.addParked setup waiting = .ok next) :
    processor.requeueNext setup requeue = .ok (next, some { requeue with rest }) := by
  unfold requeueNext
  rw [isNext]
  simp only [added]
  rfl

/-- One of the blocks that waited for a block is queued again. -/
theorem Delivers.requeue {batch : Batch Tables} {requeue : Requeue} {waiting : ParkedBlock}
    {rest : List ParkedBlock} (delivery : Delivery setup first final plan)
    (delivers : Delivers setup first final plan todo processor)
    (requeueing : processor.worker = .requeueing batch item requeue)
    (isNext : requeue.rest = waiting :: rest) :
    ∃ queued, processor.requeueNext setup requeue = .ok (queued, some { requeue with rest }) ∧
      Delivers setup first final plan todo
        { queued with worker := .requeueing batch item { requeue with rest } } := by
  have tracks := delivers.tracks
  rw [transit, requeueing] at tracks
  have unvouched := tracks.requeued waiting (List.mem_of_mem_head? (congrArg List.head? isNext))
  have unparked : (processor.queues.transit batch.store
      (.requeueing batch item { requeue with rest })).Tracks setup.constants first final plan
        (waiting.block :: todo) := tracks.unpark isNext
  obtain ⟨queues, interner, queued, stillTracks, undisturbed⟩ :=
    exists_enqueue (processor.copy waiting.block).2 (.ofParked processor.copies waiting) delivery
      unparked delivers.undisturbed unvouched
  exact ⟨_, requeueNext_eq isNext queued, stillTracks, trivial, undisturbed⟩

/-- Whatever the worker chooses to do next, a delivery goes on. -/
theorem Delivers.choose {batch : Batch Tables} (elapsed : Nat)
    (delivers : Delivers setup first final plan todo processor)
    (choosing : processor.worker = .choosing batch) :
    (processor.choose setup.settings elapsed batch).Delivers setup first final plan todo := by
  have tracks := delivers.tracks
  rw [transit, choosing] at tracks
  have ended : (processor.endBatch batch).Delivers setup first final plan todo :=
    ⟨tracks, trivial, delivers.undisturbed⟩
  unfold Processor.choose
  split
  · exact ended
  split
  · exact ⟨tracks.drain rfl _, trivial, delivers.undisturbed⟩
  · simp only [Queues.take?, delivers.undisturbed.unforced]
    cases isReady : processor.queues.ready with
    | nil => exact ended
    | cons item rest =>
        exact ⟨tracks.take isReady rfl, trivial, { delivers.undisturbed with unforced := rfl }⟩

/-- Every step of the worker keeps a delivery going. -/
theorem Delivers.advance {moment : Moment} (delivery : Delivery setup first final plan)
    (delivers : Delivers setup first final plan todo processor)
    (steps : processor.advance setup moment = some next) :
    next.Delivers setup first final plan todo := by
  have tracks := delivers.tracks
  have atWork := delivers.atWork
  unfold Processor.advance at steps
  cases worker : processor.worker with
  | absent | finished | crashed => simp [worker] at steps
  | idle =>
      rw [transit, worker] at tracks
      simp only [worker, delivers.undisturbed.running, Bool.false_eq_true, if_false] at steps
      split at steps
      · obtain rfl := Option.some.inj steps
        exact ⟨tracks, trivial, { delivers.undisturbed with running := rfl }⟩
      · simp at steps
  | woken =>
      rw [transit, worker] at tracks
      have moved := tracks.drain rfl (min processor.queues.unverified.length
        (max setup.settings.maxVerificationBatch.toNat 1))
      simp only [worker, Processor.drain, Queues.drain] at steps
      split at steps
      · next isEmpty =>
          obtain rfl := Option.some.inj steps
          have nothing := List.isEmpty_iff.mp isEmpty
          simp only [Queues.transit, nothing] at moved
          exact ⟨moved, trivial, delivers.undisturbed⟩
      · obtain rfl := Option.some.inj steps
        exact ⟨moved, rfl, delivers.undisturbed⟩
  | verifyingAhead snapshot drained =>
      rw [worker] at atWork
      -- Only the worker writes, so what it verifies against is what is committed.
      obtain rfl : snapshot = processor.store := atWork
      rw [transit, worker] at tracks
      obtain ⟨absent, passed⟩ := tracks_putBack delivery tracks
      obtain ⟨metrics, isPut⟩ := putBack_eq processor absent passed
      simp only [worker, Option.some.injEq] at steps
      rw [← steps]
      simp only [show processor.putBack setup processor.store drained = _ from isPut]
      exact ⟨tracks.putBack _, trivial, delivers.undisturbed⟩
  | opening =>
      rw [transit, worker] at tracks
      simp only [worker, delivers.undisturbed.alone, Option.isSome_none, Bool.false_eq_true,
        if_false, Option.some.injEq] at steps
      subst steps
      exact ⟨tracks, trivial, { delivers.undisturbed with alone := rfl }⟩
  | choosing batch =>
      simp only [worker, Option.some.injEq] at steps
      subst steps
      exact delivers.choose _ worker
  | verifying batch drained =>
      rw [transit, worker] at tracks
      obtain ⟨absent, passed⟩ := tracks_putBack delivery tracks
      obtain ⟨metrics, isPut⟩ := putBack_eq processor absent passed
      simp only [worker, Option.some.injEq] at steps
      rw [← steps]
      simp only [show processor.putBack setup batch.store drained = _ from isPut]
      exact ⟨tracks.putBack _, trivial, delivers.undisturbed⟩
  | handling batch taken =>
      rw [worker] at atWork
      simp only [worker, Option.some.injEq] at steps
      subst steps
      cases taken with
      | forced block => exact atWork.elim
      | ready item => exact delivers.handle delivery worker
  | requeueing batch item requeue =>
      cases isNext : requeue.rest with
      | nil =>
          rw [transit, worker] at tracks
          simp only [worker, requeueNext, isNext, Option.some.injEq] at steps
          subst steps
          simp only [Queues.transit, Worker.requeued, isNext] at tracks
          exact ⟨tracks, trivial, delivers.undisturbed⟩
      | cons waiting rest =>
          obtain ⟨queued, requeued, stillDelivers⟩ := delivers.requeue delivery worker isNext
          simp only [worker, requeued, Option.some.injEq] at steps
          exact steps ▸ stillDelivers
  -- The worker goes on, and what it sees becomes or stays what is committed.
  | committing | emitting | closing =>
      rw [transit, worker] at tracks
      simp only [worker, Option.some.injEq] at steps
      subst steps
      exact ⟨tracks, trivial, delivers.undisturbed⟩

/-! ### Runs -/

/-- Blocks are submitted one after another, between any steps of the worker. -/
inductive Submits : List Action → List Block → Prop where
  | done : Submits [] []
  | add {actions : List Action} {blocks : List Block} (block : Block) (arrival : Timestamp)
      (rest : Submits actions blocks) : Submits (.add block arrival :: actions) (block :: blocks)
  | start {actions : List Action} {blocks : List Block} (rest : Submits actions blocks) :
      Submits (.start :: actions) blocks
  | advance {actions : List Action} {blocks : List Block} (moment : Moment)
      (rest : Submits actions blocks) : Submits (.advance moment :: actions) blocks

theorem Submits.advances {actions : List Action} {blocks : List Block} (moment : Moment)
    (count : Nat) (submits : Submits actions blocks) :
    Submits (List.replicate count (.advance moment) ++ actions) blocks := by
  induction count with
  | zero => exact submits
  | succ count inductionHypothesis => exact inductionHypothesis.advance moment

/-- The worker waits, and nothing is queued. -/
structure Quiet (processor : Processor Tables) : Prop where
  worker : processor.worker = .absent ∨ processor.worker = .idle
  ready : processor.queues.ready = []
  unverified : processor.queues.unverified = []
  forced : processor.queues.forced = []

/-- Nothing is going on, and nothing is remembered that turns a block away. -/
structure AtRest (processor : Processor Tables) : Prop extends Quiet processor where
  direct : processor.direct = none
  running : processor.queues.stopped = false
  hashes : ∀ hash, processor.queues.hashes.contains hash = false
  rolledBack : ∀ hash, processor.queues.rolledBack.contains hash = false
  parked : processor.store.parked = .empty

instance (processor : Processor Tables) : Decidable processor.Quiet :=
  decidable_of_iff (processor.worker.isWaiting ∧ processor.queues.ready = [] ∧
    processor.queues.unverified = [] ∧ processor.queues.forced = [])
    ⟨fun ⟨waiting, ready, unverified, forced⟩ =>
      ⟨Worker.isWaiting_iff.mp waiting, ready, unverified, forced⟩,
    fun quiet => ⟨Worker.isWaiting_iff.mpr quiet.worker, quiet.ready, quiet.unverified,
      quiet.forced⟩⟩

theorem Quiet.transit_eq (quiet : processor.Quiet) : processor.transit
    = ⟨⟨[], [], processor.queues.hashes⟩, processor.store, [], [], []⟩ := by
  have lanes : processor.queues.toLanes = ⟨[], [], processor.queues.hashes⟩ :=
    congrArg₂ (Lanes.mk · · processor.queues.hashes) quiet.ready quiet.unverified
  unfold transit Queues.transit
  rw [lanes]
  rcases quiet.worker with absent | idle
  · rw [absent]
    rfl
  · rw [idle]
    rfl

theorem Delivers.start (delivers : Delivers setup first final plan todo processor) :
    (processor.start.toOption.getD processor).Delivers setup first final plan todo := by
  unfold Processor.start
  split
  · next worker =>
      have tracks := delivers.tracks
      rw [transit, worker] at tracks
      exact ⟨tracks, trivial, delivers.undisturbed⟩
  · exact delivers

/-- At the end of a run everything has arrived. -/
theorem Delivers.run {actions : List Action} (delivery : Delivery setup first final plan)
    (submits : Submits actions todo)
    (delivers : Delivers setup first final plan todo processor) :
    (processor.run setup actions).Delivers setup first final plan [] := by
  induction submits generalizing processor with
  | done => exact delivers
  | add block arrival rest inductionHypothesis =>
      obtain ⟨next, added, stillDelivers⟩ := delivers.add delivery arrival
      have acted : processor.act setup (.add block arrival) = next := by
        rw [act, added]
        rfl
      rw [Processor.run, List.foldl_cons, acted]
      exact inductionHypothesis stillDelivers
  | start rest inductionHypothesis => exact inductionHypothesis delivers.start
  | advance moment rest inductionHypothesis =>
      apply inductionHypothesis
      rw [act]
      cases steps : processor.advance setup moment with
      | none => exact delivers
      | some next => exact delivers.advance delivery steps

/-! ### Deliveries -/

section Outcome

variable {ledger : Tables} {offers : List Offer} (sound : setup.constants.Sound)
  (coherent : ledger.Coherent setup.constants)
  (progresses : Progresses setup.constants ledger offers final)

include sound coherent progresses

theorem delivery_of_progresses (unlinked : setup.constants.epochs.isEpochLink .zero = false)
    (deletes : setup.settings.uncheckedDeletion)
    (unknown : ∀ offer ∈ offers, offer.hint = .unknown)
    (accepts : ∀ offer ∈ offers, setup.work.accepts offer.block) :
    Delivery setup ledger final (offers.map Offer.block) where
  sound := sound
  unlinked := unlinked
  deletes := deletes
  coherent := progresses.coherent_final coherent sound
  belongs := by
    intro block planned
    obtain ⟨offer, offered, rfl⟩ := List.mem_map.mp planned
    obtain ⟨sideband, found, suits⟩ := progresses.suits coherent sound offered
    exact ⟨sideband, found, unknown offer offered ▸ suits⟩
  covers := by
    intro hash inFinal
    rw [Table.contains_eq_true_iff, progresses.stored_iff coherent sound] at inFinal
    rcases inFinal with here | ⟨offer, offered, rfl⟩
    · exact .inl ((Table.contains_eq_true_iff _ _).mpr here)
    · exact .inr ⟨offer.block, List.mem_map_of_mem offered, rfl⟩
  accepts := by
    intro block planned
    obtain ⟨offer, offered, rfl⟩ := List.mem_map.mp planned
    exact accepts offer offered

/-- Before anything has arrived, nothing is under way. -/
theorem AtRest.delivers (rest : processor.AtRest) (isLedger : processor.store = ledger)
    (tells : processor.interner.Tells (offers.map Offer.block))
    (permuted : todo.Perm (offers.map Offer.block)) :
    processor.Delivers setup ledger final (offers.map Offer.block) todo := by
  subst isLedger
  obtain ⟨quiet, direct, running, hashes, rolledBack, parked⟩ := rest
  refine ⟨?_, ?_, quiet.forced, rolledBack, running, direct, tells⟩
  · rw [quiet.transit_eq]
    refine {
      coherent := coherent
      kept := fun _ contained => contained
      within := progresses.within coherent sound
      version := rfl
      accounted := ?_
      unvouched := by simp [Transit.queued, Lanes.items]
      naming := by simp
      requeued := by simp
      waits := by simp [parked]
      listed := fun hash contained => absurd contained (by simp [hashes hash]) }
    intro block
    have distinct : (offers.map Offer.block).Nodup := by
      apply List.Nodup.of_map Block.hash
      rw [List.map_map]
      exact progresses.nodup coherent sound
    have nowhere : Transit.copies
        ⟨⟨[], [], processor.queues.hashes⟩, processor.store, [], [], []⟩ block = 0 := by
      simp [Transit.copies, Transit.queued, Lanes.items, Transit.parkedCopies, parked]
    rw [nowhere, permuted.count_eq, Nat.add_zero]
    by_cases planned : block ∈ offers.map Offer.block
    · rw [List.count_eq_one_of_mem distinct planned, if_pos]
      obtain ⟨offer, offered, rfl⟩ := List.mem_map.mp planned
      exact ⟨planned,
        (Table.contains_eq_false_iff _ _).mpr (progresses.fresh coherent sound offered)⟩
    · rw [List.count_eq_zero_of_not_mem planned, if_neg fun outstanding => planned outstanding.1]
  · rcases quiet.worker with absent | idle
    · rw [absent]
      trivial
    · rw [idle]
      trivial

end Outcome

/-- Blocks that a ledger takes in one after another may arrive at an intake in any order. -/
theorem AtRest.order_independent {offers : List Offer} {actions : List Action}
    {arrived : List Block} (rest : processor.AtRest)
    (reachable : Reachable setup.constants processor.store) (sound : setup.constants.Sound)
    (unlinked : setup.constants.epochs.isEpochLink .zero = false)
    (deletes : setup.settings.uncheckedDeletion)
    (progresses : Progresses setup.constants processor.store offers final)
    (unknown : ∀ offer ∈ offers, offer.hint = .unknown)
    (accepts : ∀ offer ∈ offers, setup.work.accepts offer.block)
    (tells : processor.interner.Tells (offers.map Offer.block))
    (submits : Submits actions arrived) (permuted : arrived.Perm (offers.map Offer.block))
    (quiet : (processor.run setup actions).Quiet) :
    (processor.run setup actions).store.timeless = final.timeless ∧
      (processor.run setup actions).store.parked = .empty := by
  have coherent := reachable.coherent sound
  have delivery := delivery_of_progresses sound coherent progresses unlinked deletes unknown accepts
  have delivers := (rest.delivers sound coherent progresses rfl tells permuted).run delivery submits
  have tracks := delivers.tracks
  obtain ⟨sameParked, sameVersion⟩ := progresses.outside coherent sound
  rw [quiet.transit_eq] at tracks
  exact ⟨tracks.timeless_eq delivery rfl rfl rfl (sameParked.trans rest.parked) sameVersion,
    tracks.none_parked delivery rfl rfl rfl⟩

/-! ### The development network -/

section Development

open LedgerConstants

/-- The genesis account sends all it has to itself. -/
def devTransfer : Block :=
  devKey.block (.send
    { previous := dev.genesis.hash, destination := dev.genesisAccount, balance := .zero }) 0

/-- It takes back what it sent. -/
def devReturn : Block :=
  devKey.block (.receive { previous := devTransfer.hash, source := devTransfer.hash }) 0

/-- An intake for the development network that asks for no work. -/
def devSetup : IntakeSetup := ⟨.standard, .dev, ⟨0⟩⟩

/-- A new intake over a ledger that has just started. -/
def devFresh : Processor Tables := .new .standard (started .dev .zero .empty none)

/-- The later block arrives first, and a batch is over before the other one arrives. -/
def devArrivals : List Action :=
  .start :: .add devReturn .zero :: (List.replicate 9 (.advance ⟨.zero, 0⟩) ++
    .add devTransfer .zero :: (List.replicate 14 (.advance ⟨.zero, 0⟩) ++ []))

/-- The ledger after the first of the two blocks. -/
def devTransferred : Tables :=
  leftBy (process .dev .zero .unknown devTransfer) (started .dev .zero .empty none)

/-- The ledger that takes in the blocks in their order. -/
def devReturned : Tables := leftBy (process .dev .zero .unknown devReturn) devTransferred

-- One evaluation for all, since each has to check the same signatures.
private theorem devArrivals_evaluated :
    (devFresh.run devSetup devArrivals).Quiet ∧
      (devTransfer.hash ≠ .zero ∧ devReturn.hash ≠ .zero) ∧
      Interner.digest devTransfer ≠ Interner.digest devReturn ∧
      (devSetup.constants.epochs.isEpochLink .zero = false ∧
        devSetup.work.accepts devTransfer ∧ devSetup.work.accepts devReturn) ∧
      ((process .dev .zero .unknown devTransfer).run (started .dev .zero .empty none)).1
        = .ok ⟨.progress, dev.genesisAccount, .greatest, dev.genesisAccount, .valid, .greatest⟩ ∧
      ((process .dev .zero .unknown devReturn).run devTransferred).1
        = .ok ⟨.progress, dev.genesisAccount, .greatest, .zero, .valid, .zero⟩ := by
  decide +kernel

theorem devFresh_atRest : devFresh.AtRest where
  worker := .inl rfl
  ready := rfl
  unverified := rfl
  forced := rfl
  direct := rfl
  running := rfl
  hashes := fun _ => rfl
  rolledBack := fun _ => rfl
  parked := rfl

theorem devReturned_progresses :
    Progresses .dev (started .dev .zero .empty none)
      [⟨.zero, .unknown, devTransfer⟩, ⟨.zero, .unknown, devReturn⟩] devReturned := by
  obtain ⟨-, named, -, -, transfers, returns⟩ := devArrivals_evaluated
  exact .next named.1 ⟨_, run_eq_leftBy transfers, rfl⟩
    (.next named.2 ⟨_, run_eq_leftBy returns, rfl⟩ (.done devReturned))

theorem devArrivals_order_independent :
    (devFresh.run devSetup devArrivals).store.timeless = devReturned.timeless ∧
      (devFresh.run devSetup devArrivals).store.parked = .empty := by
  obtain ⟨quiet, -, apart, ⟨unlinked, accepted, alsoAccepted⟩, -⟩ := devArrivals_evaluated
  have submits : Submits devArrivals [devReturn, devTransfer] :=
    .start (.add devReturn .zero (.advances _ 9 (.add devTransfer .zero (.advances _ 14 .done))))
  have tells : devFresh.interner.Tells [devTransfer, devReturn] := by
    -- A new interner has no entries, so only the two blocks could be confused.
    refine ⟨?_, fun _ _ _ found => nomatch found⟩
    simp only [List.mem_cons, List.not_mem_nil, or_false]
    rintro block (rfl | rfl) other (rfl | rfl) same
    · rfl
    · exact absurd same apart
    · exact absurd same.symm apart
    · rfl
  exact AtRest.order_independent devFresh_atRest (.started .zero .empty none) dev_sound unlinked
    rfl devReturned_progresses (by simp) (by simp [accepted, alsoAccepted]) tells submits
    (.swap devTransfer devReturn []) quiet

end Development

end Processor

end AccountChains
