import AccountChains.Proofs.Intake.Barrier
import AccountChains.Proofs.Intake.Load

/-!
Contract: what keeps the worker going.

The worker ends if it has to queue a block without enough work, or if it cannot count one
more block of an account. Copies of blocks are held in the queues, in its hands and in the
events that it is going to report, and any of them may be queued in the place of an equal
one. So all of them have to pass, and so do the parked blocks, which may be queued again.
No block comes from anywhere else.

Owns: `Unhindered`, that it is kept by every step, and that every step leaves less to do.
Does not own: where that leads.
-/

namespace AccountChains

open Ledger Tables

/-- A block has enough work to be queued, and does not hash to zero. -/
structure IntakeSetup.Passes (setup : IntakeSetup) (block : Block) : Prop where
  accepted : setup.work.accepts block
  named : block.hash ≠ .zero

namespace Worker

variable {σ : Type}

theorem handles_verifyingAhead (snapshot : σ) (drained : List QueuedBlock) :
    (verifyingAhead snapshot drained).handles = drained.map QueuedBlock.handle :=
  List.append_nil _

theorem handles_choosing (batch : Batch σ) : (choosing batch).handles = batch.noted := rfl

theorem handles_emitting (events : List Event) :
    (emitting events : Worker σ).handles = events.filterMap Event.handle? :=
  (List.append_nil _).trans (List.append_nil _)

end Worker

-- Stated apart from the check, which a proof by computation would run.
theorem QueuedBlock.handle_known (item : QueuedBlock) (verified : Verification) :
    QueuedBlock.handle { item with verified } = item.handle := rfl

theorem QueuedBlock.handle_settled (links : EpochLinks) (item : QueuedBlock) :
    (item.settled links).handle = item.handle := handle_known item _

/-- The copy to use is the offered one, or one that is held. -/
theorem Interner.isHeld_intern (isHeld : Handle → Bool) (offered : Handle) (interner : Interner) :
    (interner.intern isHeld offered).1 = offered ∨
      isHeld (interner.intern isHeld offered).1 := by
  unfold Interner.intern
  split
  · split
    · next held => exact .inr held
    · exact .inl rfl
  · exact .inl rfl

namespace Processor

/-- The copies of blocks in the queues and in the hands of the worker. -/
def holdings (processor : Processor Tables) : List Handle :=
  processor.queues.handles ++ processor.worker.handles

/-- The forced blocks that have not been handled. -/
def pressing (processor : Processor Tables) : List Handle :=
  processor.queues.forced ++ processor.worker.forced

/-- Nothing will keep the worker from going on: it has been started and not stopped, no call has
the write transaction, and the blocks that it may come across pass. Forced blocks spare the
genesis block. -/
structure Unhindered (setup : IntakeSetup) (processor : Processor Tables) : Prop where
  working : processor.worker.IsWorking
  running : processor.queues.stopped = false
  alone : processor.direct = none
  held : ∀ handle ∈ processor.holdings, setup.Passes handle.block
  spares : ∀ handle ∈ processor.pressing, handle.block.SparesGenesis setup.constants
  parked : ∀ key waiting, processor.view.parked.get? key = some waiting →
    setup.Passes waiting.block
  freed : ∀ waiting ∈ processor.worker.requeued, setup.Passes waiting.block

variable {setup : IntakeSetup} {processor next : Processor Tables} {batch : Batch Tables}

theorem mem_holdings {handle : Handle} : handle ∈ processor.holdings ↔
    handle ∈ processor.queues.handles ∨ handle ∈ processor.worker.handles :=
  List.mem_append

theorem handles_eq_holdings (alone : processor.direct = none) :
    processor.handles = processor.holdings := by
  simp only [handles, alone, List.append_nil, holdings]

/-- With no forced block in hand, the forced blocks are those of the queue. -/
theorem pressing_subset
    (queued : ∀ handle ∈ next.queues.forced, handle ∈ processor.queues.forced)
    (unforced : next.worker.forced = []) :
    ∀ handle ∈ next.pressing, handle ∈ processor.pressing := by
  intro handle member
  rw [pressing, unforced, List.append_nil] at member
  exact List.mem_append_left _ (queued handle member)

namespace Unhindered

variable (unhindered : processor.Unhindered setup)

/-! ## Steps that leave the ledger as it is -/

section Beside

include unhindered

theorem of_view (working : next.worker.IsWorking)
    (running : next.queues.stopped = processor.queues.stopped)
    (alone : next.direct = processor.direct) (view : next.view = processor.view)
    (held : ∀ handle ∈ next.holdings, handle ∈ processor.holdings ∨ setup.Passes handle.block)
    (forced : ∀ handle ∈ next.pressing, handle ∈ processor.pressing)
    (freed : ∀ waiting ∈ next.worker.requeued, waiting ∈ processor.worker.requeued) :
    next.Unhindered setup where
  working := working
  running := running.trans unhindered.running
  alone := alone.trans unhindered.alone
  held handle isHeld := (held handle isHeld).elim (unhindered.held handle) id
  spares handle member := unhindered.spares handle (forced handle member)
  parked := view ▸ unhindered.parked
  freed waiting member := unhindered.freed waiting (freed waiting member)

/-- The worker goes on to another place, with nothing taken out of the queues or put back. -/
theorem turns {place worker : Worker Tables} {store : Tables} {active : Bool} {metrics : Metrics}
    {emitted : List Event} (isPlace : processor.worker = place) (working : worker.IsWorking)
    (view : worker.view store = place.view processor.store) (unladen : worker.Unladen)
    (inHand : ∀ handle ∈ worker.handles, handle ∈ place.handles) :
    Unhindered setup { processor with
      store, worker, metrics, emitted, queues := { processor.queues with active } } := by
  subst isPlace
  refine unhindered.of_view working rfl rfl view (fun handle isHeld => .inl ?_)
    (pressing_subset (fun _ => id) unladen.forced) fun waiting member => ?_
  · exact mem_holdings.mpr ((mem_holdings.mp isHeld).imp_right (inHand handle))
  · rw [unladen.requeued] at member
    cases member

theorem drain {limit : Nat} {drained : List QueuedBlock} {queues : Queues}
    {place worker : Worker Tables} (isPlace : processor.worker = place)
    (drains : processor.queues.drain limit = (drained, queues)) (working : worker.IsWorking)
    (view : worker.view processor.store = place.view processor.store)
    (forced : worker.forced = []) (requeued : worker.requeued = [])
    (inHand : ∀ handle ∈ worker.handles,
      handle ∈ drained.map QueuedBlock.handle ∨ handle ∈ place.handles) :
    Unhindered setup { processor with queues, worker } := by
  subst isPlace
  have queued (handle : Handle) (holds : handle ∈ queues.handles ∨
      handle ∈ drained.map QueuedBlock.handle) : handle ∈ processor.queues.handles :=
    (Queues.mem_handles_drain drains).mpr holds
  have sameStopped : queues.stopped = processor.queues.stopped := by
    obtain ⟨-, rfl⟩ := Prod.mk.inj drains
    rfl
  have sameForced : queues.forced = processor.queues.forced := Queues.forced_drain drains
  refine unhindered.of_view working sameStopped rfl view (fun handle isHeld => .inl ?_)
    (pressing_subset (fun _ => sameForced ▸ id) forced) fun waiting member => ?_
  · rcases mem_holdings.mp isHeld with isQueued | holds
    · exact mem_holdings.mpr (.inl (queued handle (.inl isQueued)))
    · exact mem_holdings.mpr ((inHand handle holds).imp_left fun isDrained =>
        queued handle (.inr isDrained))
  · rw [requeued] at member
    cases member

theorem putBack (snapshot : Tables) {place worker : Worker Tables}
    (isPlace : processor.worker = place) (working : worker.IsWorking)
    (view : worker.view processor.store = place.view processor.store) (unladen : worker.Unladen)
    (isHeld : ∀ item ∈ place.drained, item.handle ∈ place.handles)
    (inHand : ∀ handle ∈ worker.handles, handle ∈ place.handles) :
    Unhindered setup { processor.putBack setup snapshot place.drained with worker } := by
  subst isPlace
  obtain ⟨hashes, metrics, isPut, -⟩ :=
    processor.putBack_spec setup snapshot processor.worker.drained
  rw [isPut]
  refine unhindered.of_view working rfl rfl view (fun handle isHolding => .inl ?_)
    (pressing_subset (fun _ => id) unladen.forced) fun waiting member => ?_
  · rw [mem_holdings, Queues.mem_handles] at isHolding ⊢
    simp only [Lanes.items, List.mem_append, List.mem_map, List.mem_filter] at isHolding ⊢
    rcases isHolding with
      (⟨item, (ready | ⟨checked, ⟨isDrained, -⟩, rfl⟩) | unverified, rfl⟩ | forced) | holds
    · exact .inl (.inl ⟨item, .inl ready, rfl⟩)
    · rw [QueuedBlock.handle_settled]
      exact .inr (isHeld checked isDrained)
    · exact .inl (.inl ⟨item, .inr unverified, rfl⟩)
    · exact .inl (.inr forced)
    · exact .inr (inHand handle holds)
  · rw [unladen.requeued] at member
    cases member

theorem take {taken : Queues.Taken} {queues : Queues}
    (choosing : processor.worker = .choosing batch)
    (takes : processor.queues.take? = some (taken, queues)) :
    Unhindered setup { processor with queues, worker := .handling batch taken } := by
  have isView : processor.view = batch.store := view_of_batch choosing rfl
  obtain ⟨sameStopped, forced⟩ : queues.stopped = processor.queues.stopped ∧
      ∀ handle ∈ queues.forced ++ (Worker.handling batch taken).forced,
        handle ∈ processor.queues.forced := by
    unfold Queues.take? at takes
    split at takes
    · next block rest isForced =>
        obtain ⟨rfl, rfl⟩ := Prod.mk.inj (Option.some.inj takes)
        rw [isForced]
        exact ⟨rfl, fun handle member => List.mem_cons.mpr
          ((List.mem_append.mp member).symm.imp_left List.mem_singleton.mp)⟩
    · obtain ⟨rfl, rfl⟩ := Prod.mk.inj (Option.some.inj takes)
      exact ⟨rfl, fun handle member =>
        (List.mem_append.mp member).elim id (absurd · List.not_mem_nil)⟩
    · cases takes
  refine unhindered.of_view trivial sameStopped rfl isView.symm (fun handle isHeld => .inl ?_)
    (fun handle member => List.mem_append_left _ (forced handle member)) fun waiting member => ?_
  · rw [mem_holdings, Queues.mem_handles_take takes, choosing]
    rcases mem_holdings.mp isHeld with queued | inHand
    · exact .inl (.inl queued)
    · have inHand : handle = taken.handle ∨ handle ∈ batch.noted := by
        cases taken <;> exact List.mem_cons.mp inHand
      exact inHand.imp_left .inr
  · cases taken <;> cases member

/-- The copy that is queued is the new one, or one that is held already. -/
theorem queued_of_enqueue {item : QueuedBlock} {copies : Nat}
    (brought : enqueue setup item { processor with copies } = .ok next) {handle : Handle}
    (queued : handle ∈ next.queues.handles) :
    handle ∈ processor.holdings ∨ handle.block = item.block := by
  have isShared := Interner.isHeld_intern (fun handle => processor.handles.contains handle)
    item.handle processor.interner
  unfold enqueue at brought
  split at brought
  · cases brought
  split at brought
  next shared interner interned =>
  rw [show processor.interner.intern (fun handle => processor.handles.contains handle) item.handle
    = (shared, interner) from interned] at isShared
  dsimp only at brought isShared
  split at brought
  · obtain rfl := Except.ok.inj brought
    exact .inl (mem_holdings.mpr (.inl queued))
  · obtain rfl := Except.ok.inj brought
    rw [Queues.mem_handles, Queues.forced_enqueue] at queued
    rcases queued with ⟨other, member, rfl⟩ | forced
    · rcases Lanes.mem_items_enqueue.mp member with rfl | member
      · rcases isShared with rfl | held
        · exact .inr rfl
        · rw [handles_eq_holdings unhindered.alone] at held
          exact .inl (List.contains_iff_mem.mp held)
      · exact .inl (mem_holdings.mpr (.inl (Queues.mem_handles.mpr (.inl ⟨other, member, rfl⟩))))
    · exact .inl (mem_holdings.mpr (.inl (Queues.mem_handles.mpr (.inr forced))))

theorem requeue {item : QueuedBlock} {requeue : Requeue} {waiting : ParkedBlock}
    {rest : List ParkedBlock} (requeueing : processor.worker = .requeueing batch item requeue)
    (isNext : requeue.rest = waiting :: rest)
    (brought : processor.addParked setup waiting = .ok next) :
    Unhindered setup { next with worker := .requeueing batch item { requeue with rest } } := by
  have isView : processor.view = batch.store := view_of_batch requeueing rfl
  have isFreed : processor.worker.requeued = waiting :: rest := by
    rw [requeueing]
    exact isNext
  have passes : setup.Passes waiting.block :=
    unhindered.freed waiting (isFreed ▸ List.mem_cons_self)
  have arrives := arrives_enqueue brought
  obtain ⟨forced, stopped⟩ : next.queues.forced = processor.queues.forced ∧
      next.queues.stopped = processor.queues.stopped := by
    cases arrives with
    | turnedAway => exact ⟨rfl, rfl⟩
    | queued => exact ⟨Queues.forced_enqueue _ _ _, Queues.stopped_enqueue _ _ _⟩
  refine unhindered.of_view trivial stopped arrives.beside.2.1 isView.symm
    (fun handle isHeld => ?_) (pressing_subset (fun _ => forced ▸ id) rfl)
    fun waiting member => isFreed ▸ List.mem_cons_of_mem _ member
  rcases mem_holdings.mp isHeld with queued | inHand
  · refine (unhindered.queued_of_enqueue brought queued).imp_right fun same => ?_
    rw [same]
    exact passes
  · rw [mem_holdings, requeueing]
    exact .inl (.inr inHand)

end Beside

/-! ## Handling a block -/

section Handling

variable {taken : Queues.Taken} (handling : processor.worker = .handling batch taken)

include unhindered handling

/-- What the worker has in hand passes, so that it can be handled. -/
theorem exists_settled (sound : setup.constants.Sound) (deletes : setup.settings.uncheckedDeletion)
    (coherent : processor.view.Coherent setup.constants) (now : Timestamp) :
    ∃ rolledBack worker metrics, processor.handle setup now batch taken
        = { processor with queues := { processor.queues with rolledBack }, worker, metrics } ∧
      Settled setup.constants taken.handle.block batch.store worker ∧
      ∀ handle ∈ worker.handles, handle ∈ processor.worker.handles := by
  have isView : processor.view = batch.store := view_of_batch handling rfl
  have inHand (handle : Handle) (isHeld : handle = taken.handle ∨ handle ∈ batch.noted) :
      handle ∈ processor.worker.handles := by
    rw [handling]
    cases taken with
    | forced | ready => exact List.mem_cons.mpr isHeld
  have passes : setup.Passes taken.handle.block :=
    unhindered.held _ (mem_holdings.mpr (.inr (inHand _ (.inl rfl))))
  have spares (block : Handle) (isForced : taken = .forced block) :
      block.block.SparesGenesis setup.constants := by
    refine unhindered.spares block (List.mem_append_right _ ?_)
    rw [handling, isForced]
    exact List.mem_singleton_self _
  obtain ⟨rolledBack, worker, metrics, isHandled, settled, holds⟩ :=
    Processor.exists_settled setup processor now sound deletes (isView ▸ coherent) passes.named
      spares
  exact ⟨rolledBack, worker, metrics, isHandled, settled,
    fun handle isHeld => inHand handle (holds handle isHeld)⟩

/-- What a handled block frees was parked, and what it leaves parked was parked or is the block
itself. -/
theorem settled {rolledBack : RolledBack} {worker : Worker Tables} {metrics : Metrics}
    (settled : Settled setup.constants taken.handle.block batch.store worker)
    (holds : ∀ handle ∈ worker.handles, handle ∈ processor.worker.handles)
    (working : worker.IsWorking) : Unhindered setup
      { processor with queues := { processor.queues with rolledBack }, worker, metrics } := by
  have isView : processor.view = batch.store := view_of_batch handling rfl
  have parked (key : ParkedKey) (waiting : ParkedBlock)
      (found : batch.store.parked.get? key = some waiting) : setup.Passes waiting.block :=
    unhindered.parked key waiting (isView ▸ found)
  obtain ⟨after, isOpen, settles, ⟨unforced, -, -⟩, -⟩ := settled.goes_on working
  refine ⟨working, unhindered.running, unhindered.alone, fun handle isHeld => ?_,
    fun handle member => ?_, fun key waiting found => ?_, fun waiting member => ?_⟩
  · rw [mem_holdings] at isHeld
    exact unhindered.held handle (mem_holdings.mpr (isHeld.imp_right (holds handle)))
  · refine unhindered.spares handle (pressing_subset (fun _ queued => ?_) unforced handle member)
    exact queued
  · rw [view_of_batch rfl isOpen] at found
    rcases settles.parked key waiting found with same | before
    · rw [same]
      refine unhindered.held _ (mem_holdings.mpr (.inr ?_))
      rw [handling]
      cases taken <;> exact List.mem_cons_self
    · exact parked key waiting before
  · obtain ⟨key, found⟩ := settles.freed waiting member
    exact parked key waiting found

end Handling

end Unhindered

/-! ## Steps -/

namespace Strides

variable {moment : Moment} (strides : Strides setup moment processor next)
  (sound : setup.constants.Sound) (deletes : setup.settings.uncheckedDeletion)
  (unhindered : processor.Unhindered setup) (coherent : processor.view.Coherent setup.constants)

include strides sound deletes unhindered coherent

/-- The worker goes on, unless the ledger is full. -/
theorem working_or_full : next.worker.IsWorking ∨
    next.worker = .crashed (.overflow .addition) ∧ UInt64.size ≤ processor.census := by
  cases strides with
  | finishes idle stopped => simp [unhindered.running] at stopped
  | handles handling =>
      obtain ⟨rolledBack, worker, metrics, isHandled, settled, -⟩ :=
        unhindered.exists_settled handling sound deletes coherent moment.now
      rw [isHandled]
      cases settled with
      | full isFull => exact .inr ⟨rfl, census_of_full handling isFull⟩
      | done | frees => exact .inl trivial
  | requeuesWeak requeueing isNext weak =>
      have passes := unhindered.freed _ (by rw [requeueing]; exact isNext ▸ List.mem_cons_self)
      simp [passes.accepted] at weak
  | wakes | skips | drainsAhead | returnsAhead | opens | drains | takes | ends | returns | requeues
  | requeued | commits | emits | closes => exact .inl trivial

variable (working : next.worker.IsWorking)

include working

/-- Every step with which the worker goes on leaves less to do. -/
theorem relieved : processor.Relieved setup.constants next := by
  cases strides with
  | finishes idle stopped => simp [unhindered.running] at stopped
  | wakes idle hasBlocks =>
      refine relieved_of_places coherent idle rfl rfl rfl rfl ⟨rfl, rfl, rfl, rfl⟩
        ⟨rfl, rfl, rfl, rfl⟩ ?_
      simp [hasBlocks, Worker.places]
  | skips isPlace | opens isPlace | commits isPlace | emits isPlace | closes isPlace =>
      refine relieved_of_places coherent isPlace rfl rfl rfl rfl ⟨rfl, rfl, rfl, rfl⟩
        ⟨rfl, rfl, rfl, rfl⟩ ?_
      cases processor.queues.hasBlocks <;> simp [Worker.places]
  | ends choosing halts =>
      exact relieved_of_places coherent choosing rfl rfl rfl rfl ⟨rfl, rfl, rfl, rfl⟩
        ⟨rfl, rfl, rfl, rfl⟩ (places_of_halts unhindered.running halts)
  | requeued requeueing isDone =>
      refine relieved_of_places coherent requeueing rfl rfl rfl rfl ⟨rfl, rfl, isDone, rfl⟩
        ⟨rfl, rfl, rfl, rfl⟩ ?_
      cases processor.queues.hasBlocks <;> simp [Worker.places]
  | drainsAhead isPlace drains some | drains isPlace drains some =>
      exact relieved_of_drain coherent isPlace drains some rfl ⟨rfl, rfl, rfl, rfl⟩ rfl rfl rfl rfl
  | returnsAhead verifying =>
      refine relieved_of_putBack coherent _ verifying rfl rfl rfl rfl ⟨rfl, rfl, rfl, rfl⟩ ?_
      cases processor.queues.hasBlocks <;> simp [Worker.places]
  | returns verifying =>
      refine relieved_of_putBack coherent _ verifying rfl rfl rfl rfl ⟨rfl, rfl, rfl, rfl⟩ ?_
      simp only [Worker.places]
      split
      · split <;> omega
      · omega
  | takes choosing takes => exact relieved_of_take coherent choosing takes
  | handles handling =>
      obtain ⟨rolledBack, worker, metrics, isHandled, settled, -⟩ :=
        unhindered.exists_settled handling sound deletes coherent moment.now
      rw [isHandled] at working ⊢
      exact relieved_of_settled handling rolledBack settled working
  | requeues requeueing isNext brought =>
      exact relieved_of_arrives coherent requeueing isNext (arrives_enqueue brought)
  | requeuesWeak => exact working.elim

/-- Nothing gets in the way of the worker in a step with which it goes on. -/
theorem unhindered_next : next.Unhindered setup := by
  cases strides with
  | finishes idle stopped => simp [unhindered.running] at stopped
  | wakes isPlace | skips isPlace | opens isPlace | closes isPlace | emits isPlace =>
      exact unhindered.turns isPlace trivial rfl ⟨rfl, rfl, rfl, rfl⟩ (List.forall_mem_nil _)
  | ends choosing =>
      exact unhindered.turns choosing trivial rfl ⟨rfl, rfl, rfl, rfl⟩ fun _ => id
  | commits committing =>
      refine unhindered.turns committing trivial rfl ⟨rfl, rfl, rfl, rfl⟩ fun handle holds => ?_
      rwa [Worker.handles_emitting] at holds
  | requeued requeueing =>
      refine unhindered.turns requeueing trivial rfl ⟨rfl, rfl, rfl, rfl⟩ fun handle holds => ?_
      rw [Worker.handles_choosing, Batch.noted, List.filterMap_append] at holds
      exact List.mem_cons_of_mem _ ((List.mem_append.mp holds).elim id (absurd · List.not_mem_nil))
  | drainsAhead woken drains =>
      refine unhindered.drain woken drains trivial rfl rfl rfl fun handle holds => .inl ?_
      rwa [Worker.handles_verifyingAhead] at holds
  | drains choosing drains =>
      exact unhindered.drain choosing drains trivial rfl rfl rfl fun _ => List.mem_append.mp
  | returnsAhead verifying =>
      refine unhindered.putBack _ verifying trivial rfl ⟨rfl, rfl, rfl, rfl⟩ (fun item member => ?_)
        (List.forall_mem_nil _)
      rw [Worker.handles_verifyingAhead]
      exact List.mem_map_of_mem member
  | returns verifying =>
      exact unhindered.putBack _ verifying trivial rfl ⟨rfl, rfl, rfl, rfl⟩
        (fun _ member => List.mem_append_left _ (List.mem_map_of_mem member))
        fun _ => List.mem_append_right _
  | takes choosing takes => exact unhindered.take choosing takes
  | handles handling =>
      obtain ⟨rolledBack, worker, metrics, isHandled, settled, holds⟩ :=
        unhindered.exists_settled handling sound deletes coherent moment.now
      rw [isHandled] at working ⊢
      exact unhindered.settled handling settled holds working
  | requeues requeueing isNext brought => exact unhindered.requeue requeueing isNext brought
  | requeuesWeak => exact working.elim

end Strides

end Processor

end AccountChains
