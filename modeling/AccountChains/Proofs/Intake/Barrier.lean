import AccountChains.Proofs.Intake.Journal
import AccountChains.Proofs.Intake.Strides

/-!
Contract: what is over when a flush returns.

A flush waits until no block is queued and no batch is under way. The flag that says
so is raised before the worker takes the first block out of the queues, and it is
lowered after the batch has reported, so there is no moment in between at which the
queues are empty, the flag is down and the transaction is still open.

A chronicle is kept beside a run. It notes each copy of a block that is queued or
forced, and for each batch which copies it has taken out, with what transaction it
ended, what was committed and what was reported. It looks at an intake before and after
each step and has no say in what is done.

Owns: the chronicle of a run, and that a flush is a barrier. Does not own: that the
worker gets there, and what direct calls do.
-/

namespace AccountChains

/-- The copies of blocks that the worker takes out of the queues when it goes from one place to
another, to have them checked or to handle them. -/
def Worker.takenOut : Worker Tables → Worker Tables → List Handle
  | .woken, .verifyingAhead _ drained | .choosing _, .verifying _ drained =>
    drained.map QueuedBlock.handle
  | .choosing _, .handling _ taken => [taken.handle]
  | _, _ => []

def Worker.crash? {σ : Type} : Worker σ → Option Crash
  | .crashed cause => some cause
  | _ => none

/-- What is known of a batch. -/
structure BatchRecord where
  /-- The copies of blocks that it has taken out of the queues. -/
  took : List Handle
  /-- Its transaction when it was about to commit. -/
  ended : Option (Batch Tables)
  /-- The ledger of the intake when it had committed. -/
  committed : Option Tables
  /-- What the intake has reported when it reported the batch. -/
  reported : Option (List Event)

namespace BatchRecord

/-- A batch of which nothing is known yet. -/
def fresh : BatchRecord := ⟨[], none, none, none⟩

def take (handles : List Handle) (record : BatchRecord) : BatchRecord :=
  { record with took := record.took ++ handles }

/-- What the batch has written is committed, and its events are reported. -/
def Completed (record : BatchRecord) : Prop :=
  ∃ batch, record.ended = some batch ∧ record.committed = some batch.store ∧
    record.reported = some batch.events

end BatchRecord

structure Chronicle where
  /-- The copies of blocks that have been queued or forced, in this order. -/
  accepted : List Handle
  /-- The batches, the latest one first. -/
  batches : List BatchRecord

namespace Chronicle

def blank : Chronicle := ⟨[], []⟩

/-- The copies at the ends of the queues that were not there before. Checked blocks that are put
back are no new ones. -/
def newcomers (before after : Processor Tables) : List Handle :=
  match before.worker, after.worker with
  | .verifyingAhead .., .opening | .verifying .., .choosing _ => []
  | _, _ =>
    (after.queues.ready.drop before.queues.ready.length).map QueuedBlock.handle
      ++ (after.queues.unverified.drop before.queues.unverified.length).map QueuedBlock.handle
      ++ after.queues.forced.drop before.queues.forced.length

/-- A batch begins when the worker wakes, and is over when it has reported. -/
def track (before after : Processor Tables) (batches : List BatchRecord) : List BatchRecord :=
  match before.worker, after.worker with
  | .idle, .woken => .fresh :: batches
  | .choosing _, .committing batch =>
    batches.modifyHead fun record => { record with ended := some batch }
  | .committing _, .emitting _ =>
    batches.modifyHead fun record => { record with committed := some after.store }
  | .emitting _, .closing =>
    batches.modifyHead fun record =>
      { record with reported := some (after.emitted.drop before.emitted.length) }
  | earlier, later => batches.modifyHead (.take (earlier.takenOut later))

/-- Note what has happened in a step. -/
def observe (before after : Processor Tables) (chronicle : Chronicle) : Chronicle where
  accepted := chronicle.accepted ++ newcomers before after
  batches := track before after chronicle.batches

/-- Keep the chronicle while threads do their actions. -/
def keep (setup : IntakeSetup) (processor : Processor Tables) (chronicle : Chronicle) :
    List Action → Chronicle :=
  processor.logged observe setup chronicle

/-- All batches but the latest are completed. -/
def Ongoing (batches : List BatchRecord) (current : BatchRecord → Prop) : Prop :=
  ∃ record earlier, batches = record :: earlier ∧ current record ∧
    ∀ other ∈ earlier, other.Completed

/-- How far the batches have come when the worker is at a place of its loop, and that the flag is
up as long as one of them is under way. -/
def Reached (active : Bool) (batches : List BatchRecord) : Worker Tables → Prop
  | .absent | .idle | .finished => ∀ record ∈ batches, record.Completed
  | .woken | .verifyingAhead .. | .opening | .choosing _ | .verifying .. | .handling ..
  | .requeueing .. => active = true ∧ Ongoing batches fun _ => True
  | .committing batch => active = true ∧ Ongoing batches fun record => record.ended = some batch
  | .emitting events => active = true ∧ Ongoing batches fun record =>
      ∃ batch, record.ended = some batch ∧ record.committed = some batch.store ∧
        events = batch.events
  | .closing => active = true ∧ ∀ record ∈ batches, record.Completed
  | .crashed _ => False

/-- Every copy that was accepted is still queued or was taken out by a batch, and the batches have
come as far as the worker. -/
structure Tells (processor : Processor Tables) (chronicle : Chronicle) : Prop where
  accounted : ∀ handle ∈ chronicle.accepted, handle ∈ processor.queues.handles ∨
    ∃ record ∈ chronicle.batches, handle ∈ record.took
  reached : Reached processor.queues.active chronicle.batches processor.worker

end Chronicle

/-! ## Queues -/

namespace Queues

variable {queues rest : Queues} {limit : Nat} {drained : List QueuedBlock} {handle : Handle}

theorem active_drain (drains : queues.drain limit = (drained, rest)) :
    rest.active = queues.active := by
  obtain ⟨-, rfl⟩ := Prod.mk.inj drains
  rfl

theorem active_take {taken : Taken} (takes : queues.take? = some (taken, rest)) :
    rest.active = queues.active := by
  unfold take? at takes
  split at takes
  · obtain ⟨-, rfl⟩ := Prod.mk.inj (Option.some.inj takes)
    rfl
  · obtain ⟨-, rfl⟩ := Prod.mk.inj (Option.some.inj takes)
    rfl
  · exact nomatch takes

theorem handles_enqueue (hash : BlockHash) (item : QueuedBlock)
    (queued : handle ∈ queues.handles) : handle ∈ (queues.enqueue hash item).handles := by
  rw [mem_handles] at queued ⊢
  rw [forced_enqueue]
  refine queued.imp_left fun ⟨other, member, isHandle⟩ => ⟨other, ?_, isHandle⟩
  exact Lanes.mem_items_enqueue.mpr (.inr member)

end Queues

namespace Processor

variable {setup : IntakeSetup} {processor before after next : Processor Tables} {handle : Handle}

/-! ## Threads beside the worker -/

/-- A thread that is not the worker takes nothing out of the queues. It leaves the worker where it
is, starts it, or gives it up. -/
structure Beside (before after : Processor Tables) : Prop where
  active : after.queues.active = before.queues.active
  kept : ∀ handle ∈ before.queues.handles, handle ∈ after.queues.handles
  worker : after.worker = before.worker ∨ before.worker = .absent ∧ after.worker = .idle ∨
    (before.worker = .finished ∨ ∃ cause, before.worker = .crashed cause) ∧ after.worker = .absent

theorem Beside.of_same (queues : after.queues = before.queues)
    (worker : after.worker = before.worker) : Beside before after :=
  ⟨by rw [queues], fun _ queued => by rwa [queues], .inl worker⟩

theorem Arrives.beside_worker {item : QueuedBlock} (arrives : Arrives setup item processor next) :
    Beside processor next := by
  cases arrives with
  | turnedAway => exact .of_same rfl rfl
  | queued =>
      exact ⟨Queues.active_enqueue _ _ _, fun handle queued => Queues.handles_enqueue _ _ queued,
        .inl rfl⟩

variable (setup processor) in
/-- What another thread queues again does not disturb the worker. -/
theorem beside_advanceDirect (call : DirectCall Tables) :
    Beside processor (processor.advanceDirect setup call).2 := by
  unfold advanceDirect
  cases call.requeue with
  | none => exact .of_same rfl rfl
  | some requeue =>
      dsimp only
      have requeues := requeues_requeueNext setup processor requeue
      cases outcome : processor.requeueNext setup requeue with
      | error cause => exact .of_same rfl rfl
      | ok result =>
          rw [outcome] at requeues
          cases requeues with
          | next isNext arrives =>
              obtain ⟨active, kept, worker⟩ := arrives.beside_worker
              exact ⟨active, kept, worker⟩
          | done => exact .of_same rfl rfl

theorem beside_beginDirect {block : Block} {now : Timestamp}
    {result : Except Failure Unit × Processor Tables}
    (begins : processor.beginDirect setup now block = some result) : Beside processor result.2 := by
  unfold beginDirect at begins
  split at begins
  · exact nomatch begins
  · dsimp only at begins
    split at begins
    · obtain rfl := Option.some.inj begins
      exact .of_same rfl rfl
    · obtain rfl := Option.some.inj begins
      exact .of_same rfl rfl

variable (setup processor) in
theorem beside_act {action : Action} (other : ∀ moment, action ≠ .advance moment) :
    Beside processor (processor.act setup action) := by
  cases action with
  | add block arrival =>
      simp only [act]
      cases brought : processor.add setup block arrival with
      | error cause => exact .of_same rfl rfl
      | ok next => exact (arrives_enqueue brought).beside_worker
  | addKnown known now =>
      simp only [act]
      cases brought : processor.addKnown setup known now with
      | error cause => exact .of_same rfl rfl
      | ok next => exact (arrives_enqueue brought).beside_worker
  | force block =>
      refine ⟨rfl, fun handle queued => ?_, .inl rfl⟩
      rw [Queues.mem_handles] at queued ⊢
      exact queued.imp_right (List.mem_append_left _)
  | start =>
      simp only [act, start]
      split
      · next absent => exact ⟨rfl, fun _ => id, .inr (.inl ⟨absent, rfl⟩)⟩
      · exact .of_same rfl rfl
  | stop => exact ⟨rfl, fun _ => id, .inl rfl⟩
  | join =>
      simp only [act, join]
      split
      · next finished => exact ⟨rfl, fun _ => id, .inr (.inr ⟨.inl finished, rfl⟩)⟩
      · next cause crashed => exact ⟨rfl, fun _ => id, .inr (.inr ⟨.inr ⟨cause, crashed⟩, rfl⟩)⟩
      · exact .of_same rfl rfl
  | advance moment => exact absurd rfl (other moment)
  | beginDirect block now =>
      simp only [act]
      cases begins : processor.beginDirect setup now block with
      | none => exact .of_same rfl rfl
      | some result => exact beside_beginDirect begins
  | advanceDirect =>
      simp only [act]
      cases calls : processor.direct with
      | none => exact .of_same rfl rfl
      | some call => exact beside_advanceDirect setup processor call

/-! ## The worker -/

/-- Handling a block takes nothing out of the queues, and the batch is still open after it. -/
theorem exists_handled (setup : IntakeSetup) (processor : Processor Tables) (now : Timestamp)
    (batch : Batch Tables) (taken : Queues.Taken) : ∃ rolledBack worker metrics,
      processor.handle setup now batch taken
        = { processor with queues := { processor.queues with rolledBack }, worker, metrics } ∧
      ((∃ cause, worker = .crashed cause) ∨ (∃ batch, worker = .choosing batch) ∨
        ∃ batch item requeue, worker = .requeueing batch item requeue) := by
  have places {item : QueuedBlock} {store : Tables} {worker : Worker Tables}
      (offered : Offered setup now item store worker) : (∃ cause, worker = .crashed cause) ∨
        (∃ batch, worker = .choosing batch) ∨
          ∃ batch item requeue, worker = .requeueing batch item requeue := by
    cases offered with
    | crashed => exact .inl ⟨_, rfl⟩
    | failed | settled => exact .inr (.inl ⟨_, rfl⟩)
    | frees => exact .inr (.inr ⟨_, _, _, rfl⟩)
  cases taken with
  | ready item =>
      obtain ⟨worker, metrics, isOffer, offered⟩ := offered_offer setup processor now item batch
      exact ⟨_, worker, metrics, isOffer, places offered⟩
  | forced block =>
      rcases handle_forced setup processor now block batch with
        ⟨cause, fails, -⟩ | ⟨loser, store, worker, metrics, isOffer, -, offered⟩
      · exact ⟨_, .crashed cause, processor.metrics, fails, .inl ⟨cause, rfl⟩⟩
      · obtain ⟨rolledBack, isRemembered⟩ := processor.queues.exists_remember loser
        exact ⟨rolledBack, worker, metrics, isRemembered ▸ isOffer, places offered⟩

theorem active_putBack (setup : IntakeSetup) (view : Tables) (drained : List QueuedBlock) :
    (processor.putBack setup view drained).queues.active = processor.queues.active := by
  obtain ⟨hashes, metrics, isPut, -⟩ := processor.putBack_spec setup view drained
  rw [isPut]

/-- What leaves the queues in a step of the worker is taken out by its batch. -/
theorem Strides.kept_or_takenOut {moment : Moment} (strides : Strides setup moment processor next)
    (queued : handle ∈ processor.queues.handles) : handle ∈ next.queues.handles ∨
      handle ∈ processor.worker.takenOut next.worker := by
  have putBack (view : Tables) (drained : List QueuedBlock) :
      handle ∈ (processor.putBack setup view drained).queues.handles := by
    obtain ⟨hashes, metrics, isPut, -⟩ := processor.putBack_spec setup view drained
    rw [isPut]
    rw [Queues.mem_handles] at queued ⊢
    refine queued.imp_left fun ⟨item, member, isHandle⟩ => ⟨item, ?_, isHandle⟩
    simp only [Lanes.items, List.mem_append] at member ⊢
    exact member.imp_left .inl
  cases strides with
  | drainsAhead woken drains | drains woken drains =>
      rw [woken]
      exact (Queues.mem_handles_drain drains).mp queued
  | takes choosing takes =>
      rw [choosing]
      exact ((Queues.mem_handles_take takes).mp queued).imp_right List.mem_singleton.mpr
  | returnsAhead | returns => exact .inl (putBack _ _)
  | @handles batch taken handling =>
      obtain ⟨rolledBack, worker, metrics, isHandled, -⟩ :=
        exists_handled setup processor moment.now batch taken
      rw [isHandled]
      exact .inl queued
  | requeues requeueing isNext brought =>
      exact .inl ((arrives_enqueue brought).beside_worker.kept handle queued)
  | finishes | wakes | skips | opens | ends | requeued | requeuesWeak | commits | emits | closes =>
      exact .inl queued

end Processor

namespace Chronicle

open Processor

variable {setup : IntakeSetup} {processor before after next : Processor Tables}
  {chronicle : Chronicle} {handle : Handle}

theorem newcomers_queued (newcomer : handle ∈ newcomers before after) :
    handle ∈ after.queues.handles := by
  unfold newcomers at newcomer
  split at newcomer
  · exact nomatch newcomer
  · exact nomatch newcomer
  · unfold Queues.handles
    simp only [List.mem_append] at newcomer ⊢
    refine newcomer.imp (.imp (fun member => ?_) fun member => ?_) List.mem_of_mem_drop
    · exact List.map_subset _ (List.drop_subset _ _) member
    · exact List.map_subset _ (List.drop_subset _ _) member

/-- A block that comes in is a newcomer, unless it is turned away. -/
theorem newcomers_of_arrives {item : QueuedBlock} (arrives : Arrives setup item processor next) :
    processor.queues.refuses item.hash ∧ newcomers processor next = [] ∨
      processor.queues.refuses item.hash = false ∧
        ∃ shared, newcomers processor next = [shared] := by
  have sameWorker := arrives.beside.1
  cases arrives with
  | turnedAway accepts interned refused =>
      refine .inl ⟨refused, ?_⟩
      unfold newcomers
      split <;> simp
  | @queued isHeld shared interner copies accepts interned admitted =>
      refine .inr ⟨admitted, shared, ?_⟩
      unfold newcomers
      dsimp only
      split
      · simp_all
      · simp_all
      · rw [Queues.toLanes_enqueue, Lanes.ready_enqueue, Lanes.unverified_enqueue, List.drop_left,
          List.drop_left, Queues.forced_enqueue, List.drop_length]
        split <;> rfl

theorem newcomers_of_force (block : Block) :
    newcomers processor (processor.force block) = [⟨processor.copies, block⟩] := by
  unfold newcomers Processor.force Processor.copy Queues.force
  dsimp only
  split <;> simp_all

/-! ## Batches -/

section Tracking

variable {batches : List BatchRecord} {change : BatchRecord → BatchRecord}
  {current : BatchRecord → Prop}

/-- Taking nothing out leaves the batches as they are. -/
theorem modifyHead_take_nil (batches : List BatchRecord) :
    batches.modifyHead (.take []) = batches := by
  cases batches with
  | nil => rfl
  | cons record earlier => simp [BatchRecord.take]

/-- What a batch has taken out it has taken out for good. -/
theorem took_modifyHead (keeps : ∀ record, record.took ⊆ (change record).took)
    (taken : ∃ record ∈ batches, handle ∈ record.took) :
    ∃ record ∈ batches.modifyHead change, handle ∈ record.took := by
  obtain ⟨record, member, took⟩ := taken
  cases batches with
  | nil => exact nomatch member
  | cons latest earlier =>
      rcases List.mem_cons.mp member with rfl | isEarlier
      · exact ⟨change record, List.mem_cons_self, keeps record took⟩
      · exact ⟨record, List.mem_cons_of_mem _ isEarlier, took⟩

theorem took_track (taken : ∃ record ∈ batches, handle ∈ record.took) :
    ∃ record ∈ track before after batches, handle ∈ record.took := by
  unfold track
  split
  · obtain ⟨record, member, took⟩ := taken
    exact ⟨record, List.mem_cons_of_mem _ member, took⟩
  · exact took_modifyHead (fun _ => List.Subset.refl _) taken
  · exact took_modifyHead (fun _ => List.Subset.refl _) taken
  · exact took_modifyHead (fun _ => List.Subset.refl _) taken
  · exact took_modifyHead (fun _ => List.subset_append_left _ _) taken

/-- What a step takes out is noted for the latest batch. -/
theorem takenOut_track (ongoing : Ongoing batches current)
    (taken : handle ∈ before.worker.takenOut after.worker) :
    ∃ record ∈ track before after batches, handle ∈ record.took := by
  obtain ⟨record, earlier, rfl, -⟩ := ongoing
  unfold track
  split
  case h_5 => exact ⟨_, List.mem_cons_self, List.mem_append_right _ taken⟩
  all_goals
    next isBefore isAfter =>
    rw [isBefore, isAfter] at taken
    exact nomatch taken

theorem Ongoing.modifyHead {next : BatchRecord → Prop} (ongoing : Ongoing batches current)
    (becomes : ∀ record, current record → next (change record)) :
    Ongoing (batches.modifyHead change) next := by
  obtain ⟨record, earlier, rfl, isCurrent, completed⟩ := ongoing
  exact ⟨change record, earlier, rfl, becomes record isCurrent, completed⟩

/-- Steps of other threads make no difference to the batches. -/
theorem track_of_beside (beside : Beside before after) (batches : List BatchRecord) :
    track before after batches = batches := by
  unfold track
  rcases beside.worker with same | ⟨absent, idle⟩ | ⟨finished | ⟨cause, crashed⟩, absent⟩
  · rw [same]
    cases before.worker <;> exact modifyHead_take_nil batches
  · rw [absent, idle]
    exact modifyHead_take_nil batches
  · rw [finished, absent]
    exact modifyHead_take_nil batches
  · rw [crashed, absent]
    exact modifyHead_take_nil batches

end Tracking

namespace Tells

variable (tells : chronicle.Tells processor)

include tells

theorem beside (beside : Beside processor next) :
    (chronicle.observe processor next).Tells next := by
  have same := track_of_beside beside chronicle.batches
  refine ⟨fun handle isAccepted => ?_, ?_⟩
  · rcases List.mem_append.mp isAccepted with before | newcomer
    · rw [observe, same]
      exact (tells.accounted handle before).imp_left (beside.kept handle)
    · exact .inl (newcomers_queued newcomer)
  · rw [observe, same, beside.active]
    have reached := tells.reached
    rcases beside.worker with sameWorker | ⟨absent, idle⟩ | ⟨finished | ⟨cause, crashed⟩, absent⟩
    · rwa [sameWorker]
    · rw [absent] at reached
      rwa [idle]
    · rw [finished] at reached
      rwa [absent]
    · rw [crashed] at reached
      exact reached.elim

/-- A batch is under way when something is taken out of the queues. -/
theorem ongoing_of_takenOut {worker : Worker Tables}
    (taken : handle ∈ processor.worker.takenOut worker) :
    Ongoing chronicle.batches fun _ => True := by
  have reached := tells.reached
  unfold Worker.takenOut at taken
  split at taken
  case h_4 => exact nomatch taken
  all_goals
    rw [‹processor.worker = _›] at reached
    exact reached.2

/-- The batches go along with the worker, unless it ends. -/
theorem reached_of_strides {moment : Moment} (strides : Strides setup moment processor next)
    (unbroken : ∀ cause, next.worker ≠ .crashed cause) : Reached next.queues.active
      (track processor next chronicle.batches) next.worker := by
  have reached := tells.reached
  -- As long as the batch is open it does not matter what is noted.
  have goesOn {active : Bool} {change : BatchRecord → BatchRecord}
      (ongoing : processor.queues.active = true ∧ Ongoing chronicle.batches fun _ => True)
      (same : active = processor.queues.active) :
      active = true ∧ Ongoing (chronicle.batches.modifyHead change) fun _ => True :=
    ⟨same.trans ongoing.1, ongoing.2.modifyHead fun _ => id⟩
  have rests (completed : ∀ record ∈ chronicle.batches, record.Completed) :
      ∀ record ∈ chronicle.batches.modifyHead (.take []), record.Completed := by
    rwa [modifyHead_take_nil]
  unfold track
  cases strides with
  | finishes idle =>
      rw [idle] at reached ⊢
      exact rests reached
  | wakes idle =>
      rw [idle] at reached ⊢
      exact ⟨rfl, .fresh, chronicle.batches, rfl, trivial, reached⟩
  | skips isPlace | opens isPlace | requeued isPlace =>
      rw [isPlace] at reached ⊢
      exact goesOn reached rfl
  | drainsAhead isPlace drains | drains isPlace drains =>
      rw [isPlace] at reached ⊢
      exact goesOn reached (Queues.active_drain drains)
  | returnsAhead isPlace | returns isPlace =>
      rw [isPlace] at reached ⊢
      exact goesOn reached (active_putBack setup _ _)
  | takes isPlace takes =>
      rw [isPlace] at reached ⊢
      exact goesOn reached (Queues.active_take takes)
  | ends choosing =>
      rw [choosing] at reached ⊢
      exact ⟨reached.1, reached.2.modifyHead fun _ _ => rfl⟩
  | @handles batch taken handling =>
      obtain ⟨rolledBack, worker, metrics, isHandled, places⟩ :=
        exists_handled setup processor moment.now batch taken
      rw [isHandled] at unbroken ⊢
      rw [handling] at reached ⊢
      rcases places with ⟨cause, rfl⟩ | ⟨batch, rfl⟩ | ⟨batch, item, requeue, rfl⟩
      · exact absurd rfl (unbroken cause)
      · exact goesOn reached rfl
      · exact goesOn reached rfl
  | requeues requeueing isNext brought =>
      rw [requeueing] at reached ⊢
      exact goesOn reached (arrives_enqueue brought).beside_worker.active
  | requeuesWeak => exact absurd rfl (unbroken _)
  | @commits batch committing =>
      rw [committing] at reached ⊢
      exact ⟨reached.1, reached.2.modifyHead fun _ ended => ⟨batch, ended, rfl, rfl⟩⟩
  | @emits events metrics emitting =>
      rw [emitting] at reached ⊢
      obtain ⟨active, record, earlier, isBatches, ⟨batch, ended, committed, rfl⟩, completed⟩ :=
        reached
      rw [isBatches]
      refine ⟨active, List.forall_mem_cons.mpr ⟨⟨batch, ended, committed, ?_⟩, completed⟩⟩
      exact congrArg some List.drop_left
  | closes closing =>
      rw [closing] at reached ⊢
      exact rests reached.2

theorem strides {moment : Moment} (strides : Strides setup moment processor next)
    (unbroken : ∀ cause, next.worker ≠ .crashed cause) :
    (chronicle.observe processor next).Tells next := by
  refine ⟨fun handle isAccepted => ?_, tells.reached_of_strides strides unbroken⟩
  rcases List.mem_append.mp isAccepted with before | newcomer
  · rcases tells.accounted handle before with queued | taken
    · rcases strides.kept_or_takenOut queued with stays | taken
      · exact .inl stays
      · exact .inr (takenOut_track (tells.ongoing_of_takenOut taken) taken)
    · exact .inr (took_track taken)
  · exact .inl (newcomers_queued newcomer)

/-- As long as the flag is down, no batch is under way. -/
theorem over_of_inactive (inactive : processor.queues.active = false) :
    processor.worker.handles = [] ∧ ∀ record ∈ chronicle.batches, record.Completed := by
  have reached := tells.reached
  rw [inactive] at reached
  cases worker : processor.worker with
  | absent | idle | finished =>
      rw [worker] at reached
      exact ⟨rfl, reached⟩
  | crashed cause =>
      rw [worker] at reached
      exact reached.elim
  | _ =>
      rw [worker] at reached
      exact nomatch reached.1

/-- Whatever a thread does, the chronicle goes along with it, unless the worker ends. -/
theorem act (action : Action)
    (unbroken : ∀ cause, (processor.act setup action).worker ≠ .crashed cause) :
    (chronicle.observe processor (processor.act setup action)).Tells
      (processor.act setup action) := by
  have rests : (chronicle.observe processor processor).Tells processor :=
    tells.beside (.of_same rfl rfl)
  by_cases isWorker : ∃ moment, action = .advance moment
  · obtain ⟨moment, rfl⟩ := isWorker
    simp only [Processor.act] at unbroken ⊢
    cases steps : processor.advance setup moment with
    | none => exact rests
    | some next =>
        rw [steps] at unbroken
        exact tells.strides (strides_advance steps) unbroken
  · exact tells.beside (beside_act setup processor fun moment isAdvance =>
      isWorker ⟨moment, isAdvance⟩)

/-- Along a run, the chronicle goes along as long as the worker does not end. -/
theorem run {actions : List Action} (unbroken : ∀ done, done <+: actions →
      ∀ cause, (processor.run setup done).worker ≠ .crashed cause) :
    (chronicle.keep setup processor actions).Tells (processor.run setup actions) := by
  induction actions generalizing processor chronicle with
  | nil => exact tells
  | cons action rest inductionHypothesis =>
      refine inductionHypothesis (tells.act action (unbroken [action] ?_)) fun done isDone => ?_
      · exact List.prefix_append [action] rest
      · exact unbroken (action :: done) (List.prefix_cons_inj action |>.mpr isDone)

end Tells

theorem tells_new (settings : IntakeSettings) (store : Tables) :
    blank.Tells (Processor.new settings store) where
  accounted := by simp [blank]
  reached := by simp [blank, Reached, Processor.new]

theorem accepted_keep (setup : IntakeSetup) (processor : Processor Tables) (chronicle : Chronicle)
    (actions : List Action) :
    chronicle.accepted ⊆ (keep setup processor chronicle actions).accepted := by
  refine Processor.logged_induction (motive := fun later => chronicle.accepted ⊆ later.accepted)
    observe setup processor chronicle actions (fun before after log kept => ?_) (List.Subset.refl _)
  exact List.Subset.trans kept (List.subset_append_left log.accepted (newcomers before after))

end Chronicle

namespace Processor

variable {setup : IntakeSetup} {store : Tables} {earlier later : List Action}

/-- If a flush returns while the intake is not stopped, then every block that was queued or forced
before it began has left the queues and the hands of the worker. A batch has taken it out, and
every batch that did has committed and reported. -/
theorem flush_is_barrier
    (unbroken : ∀ done, done <+: earlier ++ later → ∀ cause,
      ((Processor.new setup.settings store).run setup done).worker ≠ .crashed cause)
    (returns : ((Processor.new setup.settings store).run setup (earlier ++ later)).queues.isSettled)
    (running : ((Processor.new setup.settings store).run setup
      (earlier ++ later)).queues.stopped = false) :
    let initial := Processor.new setup.settings store
    let final := initial.run setup (earlier ++ later)
    let batches := (Chronicle.keep setup initial .blank (earlier ++ later)).batches
    ∀ handle ∈ (Chronicle.keep setup initial .blank earlier).accepted,
      handle ∉ final.queues.handles ∧ handle ∉ final.worker.handles ∧
      (∃ record ∈ batches, handle ∈ record.took) ∧
      ∀ record ∈ batches, handle ∈ record.took → record.Completed := by
  intro initial final batches handle isAccepted
  have tells : (Chronicle.keep setup initial .blank (earlier ++ later)).Tells final :=
    (Chronicle.tells_new setup.settings store).run unbroken
  obtain ⟨noBlocks, inactive⟩ :
      final.queues.hasBlocks = false ∧ final.queues.active = false := by
    have settled : final.queues.isSettled := returns
    have going : final.queues.stopped = false := running
    simpa [Queues.isSettled, going] using settled
  have left : final.queues.handles = [] := by
    simp only [Queues.hasBlocks, Bool.or_eq_false_iff, Bool.not_eq_false',
      List.isEmpty_iff] at noBlocks
    obtain ⟨⟨ready, unverified⟩, forced⟩ := noBlocks
    rw [Queues.handles, ready, unverified, forced]
    rfl
  obtain ⟨emptyHanded, completed⟩ := tells.over_of_inactive inactive
  have isAcceptedLater :
      handle ∈ (Chronicle.keep setup initial .blank (earlier ++ later)).accepted := by
    rw [Chronicle.keep, logged_append]
    exact Chronicle.accepted_keep _ _ _ _ isAccepted
  refine ⟨left ▸ List.not_mem_nil, emptyHanded ▸ List.not_mem_nil, ?_,
    fun record member _ => completed record member⟩
  refine (tells.accounted handle isAcceptedLater).resolve_left ?_
  rw [left]
  exact List.not_mem_nil

section Development

open Ledger LedgerConstants

/-- A block is queued and forced, and the worker is started. -/
def devHandingIn : List Action := [.add devPromise .zero, .force devPromise, .start]

/-- The worker goes through one batch. -/
def devBatch : List Action := List.replicate 11 (.advance ⟨.zero, 0⟩)

private theorem devFlush_evaluated :
    (∀ done ∈ (devHandingIn ++ devBatch).inits,
      (devFresh.run devSetup done).worker.crash? = none) ∧
    (devFresh.run devSetup (devHandingIn ++ devBatch)).queues.isSettled ∧
    (devFresh.run devSetup (devHandingIn ++ devBatch)).queues.stopped = false ∧
    (Chronicle.keep devSetup devFresh .blank devHandingIn).accepted.map Handle.number = [0, 1] := by
  decide +kernel

/-- Both copies have been taken out by the batch, which has committed and reported. -/
theorem devPromise_flushed :
    let final := devFresh.run devSetup (devHandingIn ++ devBatch)
    let batches := (Chronicle.keep devSetup devFresh .blank (devHandingIn ++ devBatch)).batches
    let accepted := (Chronicle.keep devSetup devFresh .blank devHandingIn).accepted
    accepted.map Handle.number = [0, 1] ∧ ∀ handle ∈ accepted,
      handle ∉ final.queues.handles ∧ handle ∉ final.worker.handles ∧
      (∃ record ∈ batches, handle ∈ record.took) ∧
      ∀ record ∈ batches, handle ∈ record.took → record.Completed := by
  obtain ⟨steady, settled, running, noted⟩ := devFlush_evaluated
  -- Said in so many words, or the run would be computed to compare it.
  have isFresh : devFresh = .new devSetup.settings (started .dev .zero .empty none) := rfl
  rw [isFresh] at steady settled running noted ⊢
  have unbroken (done : List Action) (isDone : done <+: devHandingIn ++ devBatch) (cause : Crash) :
      ((Processor.new devSetup.settings (started .dev .zero .empty none)).run devSetup
        done).worker ≠ .crashed cause := by
    intro crashed
    have goesOn := steady done ((List.mem_inits _ _).mpr isDone)
    rw [crashed] at goesOn
    exact nomatch goesOn
  exact ⟨noted, flush_is_barrier unbroken settled running⟩

end Development

end Processor

end AccountChains
