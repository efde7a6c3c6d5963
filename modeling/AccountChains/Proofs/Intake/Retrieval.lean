import AccountChains.Proofs.Intake.Displacement

/-!
Contract: what becomes of parked blocks.

A parked block leaves its table when what it waits for is there. From then on it is in
the hands of the thread that will queue it again, until its turn comes. Then it is
queued, unless a block with its hash is on its way already, or it is turned away because
it is remembered as driven out by force. Only in the last case is it nowhere: it is
neither parked nor queued nor in the ledger, and nobody will bring it again.

Owns: the invariant of the hashes of queued blocks, what a step does to parked blocks,
and a run that loses one. Does not own: when the memory of driven out blocks forgets.
-/

namespace AccountChains

open Ledger

/-- Blocks that have been handed in and have the same digest have the same hash. -/
def Submissions.ToldApart (submissions : Submissions) : Prop :=
  ∀ block ∈ submissions.blocks, ∀ other ∈ submissions.blocks,
    Interner.digest block = Interner.digest other → block.hash = other.hash

/-! ## The hashes of queued blocks -/

namespace Queues

/-- A block with this hash is queued, or is among those that are being checked. -/
def Holds (drained : List QueuedBlock) (queues : Queues) (hash : BlockHash) : Prop :=
  ∃ item ∈ queues.items ++ drained, item.hash = hash

/-- Every hash that is turned away for a block on its way belongs to one. -/
def Listed (drained : List QueuedBlock) (queues : Queues) : Prop :=
  ∀ hash, queues.hashes.contains hash → queues.Holds drained hash

variable {drained : List QueuedBlock} {queues rest : Queues} {item : QueuedBlock}
  {hash : BlockHash}

theorem holds_enqueue (isHash : item.hash = hash) :
    (queues.enqueue hash item).Holds drained hash :=
  ⟨item, List.mem_append_left _ (Lanes.mem_items_enqueue.mpr (.inl rfl)), isHash⟩

theorem Holds.enqueue {other : BlockHash} (holds : queues.Holds drained other) :
    (queues.enqueue hash item).Holds drained other := by
  obtain ⟨found, member, isHash⟩ := holds
  refine ⟨found, ?_, isHash⟩
  rcases List.mem_append.mp member with queued | isDrained
  · exact List.mem_append_left _ (Lanes.mem_items_enqueue.mpr (.inr queued))
  · exact List.mem_append_right _ isDrained

namespace Listed

theorem of_empty (rolledBackMax : Nat) : (empty rolledBackMax).Listed [] :=
  fun _ contained => nomatch contained

theorem enqueue (listed : queues.Listed drained) (isHash : item.hash = hash) :
    (queues.enqueue hash item).Listed drained := by
  intro probe contained
  rcases Lanes.contains_enqueue.mp contained with rfl | before
  · exact holds_enqueue isHash
  · exact (listed probe before).enqueue

theorem drain {limit : Nat} (listed : queues.Listed [])
    (drains : queues.drain limit = (drained, rest)) : rest.Listed drained := by
  intro hash contained
  rw [hashes_drain drains] at contained
  obtain ⟨item, member, isHash⟩ := listed hash contained
  rw [List.append_nil] at member
  refine ⟨item, ?_, isHash⟩
  rcases (mem_items_drain drains).mp member with isDrained | stays
  · exact List.mem_append_right _ isDrained
  · exact List.mem_append_left _ stays

theorem take {taken : Taken} (listed : queues.Listed [])
    (takes : queues.take? = some (taken, rest)) : rest.Listed [] := by
  unfold take? at takes
  split at takes
  · obtain ⟨-, rfl⟩ := Prod.mk.inj (Option.some.inj takes)
    exact listed
  · next first others unforced ready =>
      obtain ⟨-, rfl⟩ := Prod.mk.inj (Option.some.inj takes)
      intro hash contained
      simp only [release, Table.contains, Table.get?_erase] at contained
      by_cases isFirst : hash = first.hash
      · simp [isFirst] at contained
      · rw [if_neg isFirst] at contained
        obtain ⟨item, member, isHash⟩ := listed hash contained
        refine ⟨item, ?_, isHash⟩
        simp only [Lanes.items, ready, List.cons_append, List.append_nil, List.mem_cons] at member ⊢
        rcases member with rfl | stays
        · exact absurd isHash.symm isFirst
        · exact stays
  · simp at takes

theorem remember (listed : queues.Listed drained) (loser : Option BlockHash) :
    (queues.remember loser).Listed drained := by
  cases loser <;> exact listed

end Listed

end Queues

/-- When a block is handled, every parked block stays or is to be queued again. -/
theorem Bench.Disposes.kept_or_freed {settings : IntakeSettings} {item : QueuedBlock}
    {receipt : Receipt} {parked left : Table ParkedKey ParkedBlock} {requeue : Option Requeue}
    {key : ParkedKey} {waiting : ParkedBlock}
    (disposes : Bench.Disposes settings item receipt parked requeue left)
    (found : parked.get? key = some waiting) :
    left.contains key ∨ waiting ∈ (requeue.map Requeue.rest).getD [] := by
  cases disposes with
  | leaves => exact .inl ((Table.contains_eq_true_iff _ _).mpr ⟨_, found⟩)
  | parks dependency =>
      refine .inl ?_
      rw [Table.contains, Table.get?_insert]
      split
      · rfl
      · rw [found]
        rfl
  | frees isThere freed =>
      by_cases isFreed : key.dependency = item.hash
      · refine .inr ?_
        rw [freed]
        exact List.mem_map.mpr ⟨(key, waiting), List.mem_filter.mpr
          ⟨(Table.mem_entries_iff _ _ _).mpr found, by simpa using isFreed⟩, rfl⟩
      · refine .inl ?_
        rw [Table.contains_eq_true_iff]
        refine ⟨waiting, ?_⟩
        split
        · rw [Table.get?_restrict, found]
          simp [isFreed]
        · exact found

/-! ## Who holds what -/

/-- A worker that has nothing to do, or has ended, holds nothing. -/
theorem Worker.nothing_in_hand {worker : Worker Tables}
    (isBare : worker.IsFree ∨ ∃ cause, worker = .crashed cause) :
    worker.batch? = none ∧ worker.drained = [] ∧ worker.requeued = [] := by
  rcases isBare with isFree | ⟨cause, rfl⟩
  · cases worker <;> first | exact ⟨rfl, rfl, rfl⟩ | exact isFree.elim
  · exact ⟨rfl, rfl, rfl⟩

/-- The parked blocks that a call is about to queue again. -/
def DirectCall.requeued {σ : Type} (call : DirectCall σ) : List ParkedBlock :=
  (call.requeue.map Requeue.rest).getD []

namespace Processor

variable {setup : IntakeSetup} {processor next before after : Processor Tables}

/-- The ledger that whoever holds the write transaction sees, else what is committed. -/
def seen (processor : Processor Tables) : Tables :=
  processor.worker.view ((processor.direct.map DirectCall.store).getD processor.store)

/-- The parked blocks that some thread has taken up and will queue again. -/
def inHand (processor : Processor Tables) : List ParkedBlock :=
  processor.worker.requeued ++ (processor.direct.map DirectCall.requeued).getD []

/-- A block with this hash is queued, or is being checked. -/
def IsQueued (processor : Processor Tables) (hash : BlockHash) : Prop :=
  processor.queues.Holds processor.worker.drained hash

/-- The worker has ended, and what its transaction has written is dropped. -/
def Aborts (before after : Processor Tables) : Prop :=
  (∃ cause, after.worker = .crashed cause) ∧ after.store = before.store

/-- What holds between any two steps: blocks have been handed in, the hashes of queued blocks are
right, and only one thread holds the write transaction. -/
structure InOrder (submissions : Submissions) (processor : Processor Tables) : Prop where
  obeys : processor.Obeys (.lenient submissions)
  listed : processor.queues.Listed processor.worker.drained
  exclusive : processor.direct = none ∨ processor.worker.batch? = none

/-- What a step does to blocks that are parked or have been taken up: they stay where they are, or
are taken up, or queued, or turned away as driven out by force. -/
structure Retrieves (before after : Processor Tables) : Prop where
  parked : ∀ key waiting, before.seen.parked.get? key = some waiting →
    after.seen.parked.contains key ∨ waiting ∈ after.inHand ∨ Aborts before after
  inHand : ∀ waiting ∈ before.inHand, waiting ∈ after.inHand ∨
    after.IsQueued waiting.block.hash ∨ after.queues.rolledBack.contains waiting.block.hash

variable {submissions : Submissions} {item : QueuedBlock}

/-! ## Arriving -/

section Arriving

variable (arrives : Arrives setup item processor next)
  (obeys : processor.Obeys (.lenient submissions)) (apart : submissions.ToldApart)
  (handed : item.block ∈ submissions.blocks)

include arrives obeys apart handed

/-- A block that arrives is queued under its own hash, or turned away. -/
theorem Arrives.listed {drained : List QueuedBlock} (listed : processor.queues.Listed drained) :
    next.queues.Listed drained ∧
      (next.queues.Holds drained item.hash ∨ next.queues.rolledBack.contains item.hash) := by
  cases arrives with
  | turnedAway accepts interned refused =>
      refine ⟨listed, ?_⟩
      rcases Bool.or_eq_true_iff.mp refused with onItsWay | drivenOut
      · exact .inl (listed _ onItsWay)
      · exact .inr drivenOut
  | @queued isHeld copy interner copies accepts interned admitted =>
      have shared := obeys.shared.intern isHeld handed
      rw [interned] at shared
      obtain ⟨⟨copyHanded, sameDigest⟩, -⟩ := shared
      have isHash : QueuedBlock.hash { item with handle := copy } = item.hash :=
        apart _ copyHanded _ handed sameDigest
      exact ⟨listed.enqueue isHash, .inl (Queues.holds_enqueue isHash)⟩

end Arriving

/-- Checked blocks are put back, and those that are not give up their place. -/
theorem listed_putBack (view : Tables) {drained : List QueuedBlock}
    (listed : processor.queues.Listed drained) :
    (processor.putBack setup view drained).queues.Listed [] := by
  obtain ⟨hashes, metrics, isPut, contains_iff⟩ := processor.putBack_spec setup view drained
  rw [isPut]
  intro hash contained
  obtain ⟨before, notDropped⟩ := (contains_iff hash).mp contained
  obtain ⟨item, member, isHash⟩ := listed hash before
  simp only [Queues.Holds, Lanes.items, List.append_nil, List.mem_append, List.mem_map,
    List.mem_filter] at *
  rcases member with (ready | unverified) | isDrained
  · exact ⟨item, .inl (.inl ready), isHash⟩
  · exact ⟨item, .inr unverified, isHash⟩
  · have kept : (!item.isDropped setup.constants.epochs view) = true := by
      by_contra dropped
      exact notDropped item isDrained (by simpa using dropped) isHash
    exact ⟨item.settled setup.constants.epochs, .inl (.inr ⟨item, ⟨isDrained, kept⟩, rfl⟩),
      (QueuedBlock.hash_settled _ _).trans isHash⟩

/-! ## Order between steps -/

namespace InOrder

section Stepping

variable (inOrder : processor.InOrder submissions)

include inOrder

/-- While the worker has a transaction, no call has one. -/
theorem alone {batch : Batch Tables} (isOpen : processor.worker.batch? = some batch) :
    processor.direct = none :=
  inOrder.exclusive.resolve_right (by simp [isOpen])

/-- While a call has a transaction, the worker has none. -/
theorem closed {call : DirectCall Tables} (calls : processor.direct = some call) :
    processor.worker.batch? = none :=
  inOrder.exclusive.resolve_left (by simp [calls])

theorem arrives (apart : submissions.ToldApart) (arrives : Arrives setup item processor next)
    (handed : item.block ∈ submissions.blocks) : next.InOrder submissions := by
  obtain ⟨worker, direct, -⟩ := arrives.beside
  refine ⟨inOrder.obeys.arrives arrives handed, ?_, ?_⟩
  · rw [worker]
    exact (arrives.listed inOrder.obeys apart handed inOrder.listed).1
  · rw [worker, direct]
    exact inOrder.exclusive

theorem moves {action : Action} (apart : submissions.ToldApart)
    (handed : ∀ block ∈ action.blocks, block ∈ submissions.blocks)
    (moves : Moves setup processor action next) : next.InOrder submissions := by
  have obeys : next.Obeys (.lenient submissions) :=
    inOrder.obeys.moves (Charter.upheld_lenient setup submissions) handed
      (fun block forces => handed block (forces ▸ List.mem_cons_self)) moves
  have listed := inOrder.listed
  have waits := inOrder.obeys.worker
  cases moves with
  | stays => exact inOrder
  | add arrives => exact inOrder.arrives apart arrives (handed _ List.mem_cons_self)
  | @addKnown known given now _ isBlock arrives =>
      have isHanded : given.block ∈ submissions.blocks := by
        rw [isBlock]
        exact handed known.block List.mem_cons_self
      exact inOrder.arrives apart arrives isHanded
  | force block => exact ⟨obeys, listed, inOrder.exclusive⟩
  | stop => exact ⟨obeys, listed, inOrder.exclusive⟩
  | turns wasFree isFree =>
      rw [(Worker.nothing_in_hand wasFree).2.1] at listed
      obtain ⟨closed, nothing, -⟩ := Worker.nothing_in_hand (.inl isFree)
      refine ⟨obeys, ?_, .inr closed⟩
      rw [nothing]
      exact listed
  | drainsAhead woken drains =>
      rw [woken] at listed
      exact ⟨obeys, listed.drain drains, .inr rfl⟩
  | returnsAhead verifying =>
      rw [verifying] at listed
      exact ⟨obeys, listed_putBack _ listed, .inr rfl⟩
  | opens opening alone =>
      rw [opening] at listed
      exact ⟨obeys, listed, .inl alone⟩
  | drains choosing drains =>
      rw [choosing] at listed
      exact ⟨obeys, listed.drain drains, .inl (inOrder.alone (by rw [choosing]; rfl))⟩
  | @returns moment batch drained verifying =>
      rw [verifying] at listed
      refine ⟨obeys, listed_putBack _ listed, .inl ?_⟩
      obtain ⟨hashes, metrics, isPut, -⟩ := processor.putBack_spec setup batch.store drained
      rw [isPut]
      exact inOrder.alone (by rw [verifying]; rfl)
  | takes choosing takes =>
      rw [choosing] at listed
      exact ⟨obeys, listed.take takes, .inl (inOrder.alone (by rw [choosing]; rfl))⟩
  | ends isOpen | requeued isOpen =>
      rw [isOpen] at listed
      exact ⟨obeys, listed, .inl (inOrder.alone (by rw [isOpen]; rfl))⟩
  | handles handling offered =>
      rw [handling] at listed
      refine ⟨obeys, ?_, .inl (inOrder.alone (by rw [handling]; rfl))⟩
      cases offered <;> exact listed
  | forces handling clears offered =>
      rw [handling] at listed
      refine ⟨obeys, ?_, .inl (inOrder.alone (by rw [handling]; rfl))⟩
      cases offered <;> exact listed.remember _
  | forcesInVain isOpen | requeuesWeak isOpen | commits isOpen =>
      rw [isOpen] at listed
      exact ⟨obeys, listed, .inr rfl⟩
  | requeues requeueing isNext arrives =>
      rw [requeueing] at listed waits
      have isHanded := waits.2 _ (isNext ▸ List.mem_cons_self)
      refine ⟨obeys, (arrives.listed inOrder.obeys apart isHanded listed).1, .inl ?_⟩
      exact arrives.beside.2.1.trans (inOrder.alone (by rw [requeueing]; rfl))
  | begins alone closed => exact ⟨obeys, listed, .inr closed⟩
  | beginsInVain => exact ⟨obeys, listed, inOrder.exclusive⟩
  | directRequeues calls requeueing isNext arrives =>
      have isHanded := (inOrder.obeys.direct _ calls).next requeueing isNext
      have worker := arrives.beside.1
      refine ⟨obeys, ?_, .inr ?_⟩
      · rw [worker]
        exact (arrives.listed inOrder.obeys apart isHanded listed).1
      · rw [worker]
        exact inOrder.closed calls
  | directRequeued calls => exact ⟨obeys, listed, .inr (inOrder.closed calls)⟩
  | directRequeuesWeak => exact ⟨obeys, listed, .inl rfl⟩
  | directCommits => exact ⟨obeys, listed, .inl rfl⟩

end Stepping

end InOrder

/-! ## Parked blocks step by step -/

theorem Retrieves.of_same (seen : after.seen.parked = before.seen.parked)
    (inHand : after.inHand = before.inHand) : Retrieves before after where
  parked _ _ found := .inl ((Table.contains_eq_true_iff _ _).mpr ⟨_, seen ▸ found⟩)
  inHand _ member := .inl (inHand ▸ member)

/-- The worker goes on without touching what its transaction sees or what is in hand. -/
theorem Retrieves.of_quiet (store : after.store = before.store)
    (direct : after.direct = before.direct)
    (view : after.worker.batch?.map Batch.store = before.worker.batch?.map Batch.store)
    (requeued : after.worker.requeued = before.worker.requeued) : Retrieves before after :=
  .of_same (by rw [seen, seen, Worker.view, Worker.view, store, direct, view])
    (by rw [Processor.inHand, Processor.inHand, requeued, direct])

/-- The next of the blocks that have been taken up has arrived. -/
theorem Retrieves.of_arrival (waiting : ParkedBlock)
    (seen : after.seen.parked = before.seen.parked)
    (inHand : ∀ other ∈ before.inHand, other = waiting ∨ other ∈ after.inHand)
    (arrived : after.IsQueued waiting.block.hash ∨
      after.queues.rolledBack.contains waiting.block.hash) : Retrieves before after where
  parked _ _ found := .inl ((Table.contains_eq_true_iff _ _).mpr ⟨_, seen ▸ found⟩)
  inHand other member := by
    rcases inHand other member with rfl | stays
    · exact .inr arrived
    · exact .inl stays

/-- What the worker's offer does to the blocks that are parked in its transaction. -/
theorem Offered.retrieves {now : Timestamp} {batch : Batch Tables} {store : Tables}
    {worker : Worker Tables} {queues : Queues} {metrics : Metrics}
    (offered : Offered setup now item store worker) (isOpen : processor.worker.batch? = some batch)
    (nothing : processor.worker.requeued = []) (parked : store.parked = batch.store.parked) :
    Retrieves processor { processor with queues, worker, metrics } where
  parked key waiting found := by
    have isSeen : processor.seen = batch.store := by
      unfold seen Worker.view
      rw [isOpen]
      rfl
    rw [isSeen, ← parked] at found
    have stillParked {hint : Verification} {block : Block} {answer : Except Fault Receipt}
        {written : Tables} (ran : (process setup.constants now hint block).run store
          = (answer, written)) : written.parked.get? key = some waiting :=
      parked_process ran ▸ found
    cases offered with
    | @crashed fault cause written ran => exact .inr (.inr ⟨⟨cause, rfl⟩, rfl⟩)
    | failed ran =>
        exact .inl ((Table.contains_eq_true_iff _ _).mpr ⟨waiting, stillParked ran⟩)
    | settled ran disposes =>
        rcases disposes.kept_or_freed (stillParked ran) with kept | freed
        · exact .inl kept
        · exact nomatch freed
    | frees ran disposes =>
        rcases disposes.kept_or_freed (stillParked ran) with kept | freed
        · exact .inl kept
        · exact .inr (.inl (List.mem_append_left _ freed))
  inHand waiting member := by
    rw [inHand, nothing, List.nil_append] at member
    exact .inl (List.mem_append_right _ member)

/-- What a step does to parked blocks, if all blocks that have been handed in have enough work. -/
theorem InOrder.retrieves {action : Action} (inOrder : processor.InOrder submissions)
    (apart : submissions.ToldApart)
    (accepted : ∀ block ∈ submissions.blocks, setup.work.accepts block)
    (moves : Moves setup processor action next) : Retrieves processor next := by
  have listed := inOrder.listed
  have waits := inOrder.obeys.worker
  cases moves with
  | stays | force | stop | beginsInVain => exact .of_same rfl rfl
  | add arrives | addKnown _ arrives =>
      obtain ⟨worker, direct, store⟩ := arrives.beside
      exact .of_quiet store direct (by rw [worker]) (by rw [worker])
  | turns wasFree isFree =>
      obtain ⟨closed, -, nothing⟩ := Worker.nothing_in_hand wasFree
      obtain ⟨stillClosed, -, stillNothing⟩ := Worker.nothing_in_hand (.inl isFree)
      exact .of_quiet rfl rfl (by rw [closed, stillClosed]) (by rw [nothing, stillNothing])
  | drainsAhead before | returnsAhead before | drains before | returns before | takes before
  | ends before =>
      exact .of_quiet rfl rfl (by rw [before]; rfl) (by rw [before]; rfl)
  | opens opening alone =>
      refine .of_same ?_ ?_
      · simp only [seen, opening, alone]
        rfl
      · simp only [inHand, opening]
        rfl
  | handles handling offered =>
      exact offered.retrieves (by rw [handling]; rfl) (by rw [handling]; rfl) rfl
  | forces handling clears offered =>
      exact offered.retrieves (by rw [handling]; rfl) (by rw [handling]; rfl) clears.parked_eq
  | forcesInVain handling =>
      refine ⟨fun key waiting found => .inr (.inr ⟨⟨_, rfl⟩, rfl⟩), fun waiting member => .inl ?_⟩
      rw [inHand, handling] at member
      exact member
  | @requeues moment batch item requeue waiting rest next requeueing isNext arrives =>
      rw [requeueing] at waits listed
      have isHanded := waits.2 _ (isNext ▸ List.mem_cons_self)
      have direct := arrives.beside.2.1
      refine .of_arrival waiting ?_ (fun other member => ?_)
        (arrives.listed inOrder.obeys apart isHanded listed).2
      · simp only [seen, requeueing]
        rfl
      · rw [inHand, requeueing, Worker.requeued, isNext] at member
        rw [inHand, direct]
        exact List.mem_cons.mp member
  | requeued requeueing isDone =>
      exact .of_quiet rfl rfl (by rw [requeueing]; rfl) (by rw [requeueing]; exact isDone.symm)
  | requeuesWeak requeueing isNext weak =>
      rw [requeueing] at waits
      have isAccepted := accepted _ (waits.2 _ (isNext ▸ List.mem_cons_self))
      simp [weak] at isAccepted
  | commits committing =>
      have alone := inOrder.alone (by rw [committing]; rfl)
      refine .of_same ?_ ?_
      · simp only [seen, committing, alone]
        rfl
      · simp only [inHand, committing]
        rfl
  | begins alone closed offers =>
      have isSeen : processor.seen = processor.store := by
        rw [seen, Worker.view, closed, alone]
        rfl
      refine ⟨fun key waiting found => ?_, fun waiting member => .inl ?_⟩
      · cases offers with
        | @answered receipt written requeue parked ran disposes =>
            rw [isSeen, ← parked_process ran] at found
            rcases disposes.kept_or_freed found with kept | freed
            · refine .inl ?_
              rw [seen, Worker.view, closed]
              exact kept
            · exact .inr (.inl (List.mem_append_right _ freed))
      · rw [inHand, alone] at member
        exact List.mem_append_left _ (by simpa using member)
  | @directRequeues call requeue waiting rest next calls requeueing isNext arrives =>
      have isHanded := (inOrder.obeys.direct _ calls).next requeueing isNext
      have worker := arrives.beside.1
      refine .of_arrival waiting ?_ (fun other member => ?_) ?_
      · rw [seen, seen, worker, calls]
        rfl
      · rw [inHand, calls, Option.map_some, DirectCall.requeued, requeueing] at member
        rw [inHand, worker]
        simp only [Option.map_some, Option.getD_some, isNext, List.mem_append, List.mem_cons,
          DirectCall.requeued] at member ⊢
        tauto
      · rw [IsQueued, worker]
        exact (arrives.listed inOrder.obeys apart isHanded listed).2
  | directRequeued calls requeueing isDone =>
      refine .of_same ?_ ?_
      · simp only [seen, calls]
        rfl
      · simp only [inHand, calls, Option.map_some, DirectCall.requeued, requeueing, isDone]
        rfl
  | directRequeuesWeak calls requeueing isNext weak =>
      have isHanded := (inOrder.obeys.direct _ calls).next requeueing isNext
      have isAccepted := accepted _ isHanded
      simp [weak] at isAccepted
  | directCommits calls isDone =>
      refine .of_same ?_ ?_
      · simp only [seen, calls]
        rfl
      · simp only [inHand, calls, Option.map_some, DirectCall.requeued, isDone]
        rfl

/-! ## Parked blocks in a run -/

theorem inOrder_new (setup : IntakeSetup) (now : Timestamp) (version : Option UInt32) :
    (Processor.new setup.settings (started setup.constants now .empty version)).InOrder
      submissions where
  obeys := obeys_new (Charter.admits_lenient_started _ _ now version) setup.settings
  listed := .of_empty _
  exclusive := .inl rfl

theorem InOrder.run (apart : submissions.ToldApart) {actions : List Action}
    (handed : ∀ action ∈ actions, ∀ block ∈ action.blocks, block ∈ submissions.blocks)
    (inOrder : processor.InOrder submissions) : (processor.run setup actions).InOrder submissions :=
  run_induction (fun done inOrder moves => inOrder.moves apart (handed _ done) moves) inOrder

/-- Blocks that have been taken up stay in hand until they are queued or turned away. -/
theorem InOrder.inHand_until {actions : List Action} {waiting : ParkedBlock}
    (inOrder : processor.InOrder submissions) (apart : submissions.ToldApart)
    (accepted : ∀ block ∈ submissions.blocks, setup.work.accepts block)
    (handed : ∀ action ∈ actions, ∀ block ∈ action.blocks, block ∈ submissions.blocks)
    (member : waiting ∈ processor.inHand) : waiting ∈ (processor.run setup actions).inHand ∨
      ∃ done, done <+: actions ∧ ((processor.run setup done).IsQueued waiting.block.hash ∨
        (processor.run setup done).queues.rolledBack.contains waiting.block.hash) := by
  induction actions generalizing processor with
  | nil => exact .inl member
  | cons action rest inductionHypothesis =>
      have moves := moves_act setup processor action
      rcases (inOrder.retrieves apart accepted moves).inHand waiting member with stays | arrived
      · obtain ⟨handedNow, handedLater⟩ := List.forall_mem_cons.mp handed
        rcases inductionHypothesis (inOrder.moves apart handedNow moves) handedLater stays with
          stillStays | ⟨done, isPrefix, arrived⟩
        · exact .inl stillStays
        · exact .inr ⟨action :: done, List.cons_prefix_cons.mpr ⟨rfl, isPrefix⟩, arrived⟩
      · exact .inr ⟨[action], List.cons_prefix_cons.mpr ⟨rfl, List.nil_prefix⟩, arrived⟩

/-- If blocks with enough work are handed in, a parked block stays parked at each action, or the
worker ends with the action, or the block is taken up and is in hand until it is queued or turned
away as driven out by force. -/
theorem parked_queued_or_turned_away {earlier later : List Action} {action : Action}
    {key : ParkedKey} {waiting : ParkedBlock} (now : Timestamp) (version : Option UInt32)
    (apart : (Submissions.ofActions (earlier ++ action :: later)).ToldApart)
    (accepted : ∀ done ∈ earlier ++ action :: later, ∀ block ∈ done.blocks,
      setup.work.accepts block)
    (runs : (Processor.new setup.settings (started setup.constants now .empty version)).run setup
      earlier = before)
    (acts : before.act setup action = after)
    (found : before.seen.parked.get? key = some waiting) :
    after.seen.parked.contains key ∨ Aborts before after ∨
      waiting ∈ (after.run setup later).inHand ∨
      ∃ done, done <+: later ∧ ((after.run setup done).IsQueued waiting.block.hash ∨
        (after.run setup done).queues.rolledBack.contains waiting.block.hash) := by
  let submissions := Submissions.ofActions (earlier ++ action :: later)
  have handed (done : Action) (isDone : done ∈ earlier ++ action :: later) (block : Block)
      (isHanded : block ∈ done.blocks) : block ∈ submissions.blocks :=
    Submissions.mem_ofActions.mpr ⟨done, isDone, isHanded⟩
  have enough (block : Block) (isHanded : block ∈ submissions.blocks) :
      setup.work.accepts block := by
    obtain ⟨done, isDone, isBlock⟩ := Submissions.mem_ofActions.mp isHanded
    exact accepted done isDone block isBlock
  obtain ⟨handedEarlier, handedSince⟩ := List.forall_mem_append.mp handed
  obtain ⟨handedNow, handedLater⟩ := List.forall_mem_cons.mp handedSince
  have inOrder : before.InOrder submissions :=
    runs ▸ (inOrder_new setup now version).run apart handedEarlier
  have moves : Moves setup before action after := acts ▸ moves_act setup before action
  rcases (inOrder.retrieves apart enough moves).parked key waiting found with
    stays | takenUp | aborts
  · exact .inl stays
  · exact .inr (.inr ((inOrder.moves apart handedNow moves).inHand_until apart enough handedLater
      takenUp))
  · exact .inr (.inl aborts)

section Development

open LedgerConstants

/-- The later block is taken straight in and parked, and then the one that it waits for. -/
def devWaiting : List Action := [.beginDirect devReturn .zero, .advanceDirect]

/-- A block for the slot after the transfer that nobody has signed. -/
def devLateRival : Block where
  content := .state
    { account := dev.genesisAccount, previous := devTransfer.hash
      representative := dev.genesisAccount, balance := .zero, link := .zero }
  signature := ⟨.allOnes 512⟩
  work := 0

/-- Two blocks are taken in, each is driven out by a rival, and the later one comes back. -/
def devQuarrel : List Action :=
  [.beginDirect devTransfer .zero, .advanceDirect, .beginDirect devReturn .zero, .advanceDirect,
    .start, .force devLateRival, .force devRival] ++
  List.replicate 12 (.advance ⟨.zero, 0⟩) ++ [.beginDirect devReturn .zero, .advanceDirect]

-- One evaluation for both runs, since each has to make and check the same signatures.
private theorem devRuns_evaluated :
    (((devFresh.run devSetup devWaiting).seen.parked.get? ⟨devTransfer.hash, devReturn.hash⟩).map
        ParkedBlock.block = some devReturn ∧
      Interner.digest devTransfer ≠ Interner.digest devReturn ∧
      ∀ done ∈ devWaiting ++ .beginDirect devTransfer .zero :: [.advanceDirect],
        ∀ block ∈ done.blocks, devSetup.work.accepts block) ∧
    ((devFresh.run devSetup devQuarrel).store.parked.contains
        ⟨devTransfer.hash, devReturn.hash⟩ ∧
      (∀ action ∈ devQuarrel, ∀ block ∈ action.blocks, devSetup.work.accepts block) ∧
        devSetup.work.accepts devTransfer) ∧
    ((devFresh.run devSetup devQuarrel).takeDirect devSetup .zero devTransfer).any
      fun result => !result.2.store.parked.contains ⟨devTransfer.hash, devReturn.hash⟩ &&
        (result.2.queues.items ++ result.2.worker.drained).isEmpty &&
        !result.2.store.blocks.contains devReturn.hash := by
  decide +kernel

theorem devReturn_queued_or_turned_away : ∃ before after waiting,
    devFresh.run devSetup devWaiting = before ∧
      before.act devSetup (.beginDirect devTransfer .zero) = after ∧
      before.seen.parked.get? ⟨devTransfer.hash, devReturn.hash⟩ = some waiting ∧
      (after.seen.parked.contains ⟨devTransfer.hash, devReturn.hash⟩ ∨ Aborts before after ∨
        waiting ∈ (after.run devSetup [.advanceDirect]).inHand ∨
        ∃ done, done <+: [.advanceDirect] ∧
          ((after.run devSetup done).IsQueued waiting.block.hash ∨
            (after.run devSetup done).queues.rolledBack.contains waiting.block.hash)) := by
  obtain ⟨⟨parked, different, accepted⟩, -⟩ := devRuns_evaluated
  obtain ⟨waiting, found, -⟩ := Option.map_eq_some_iff.mp parked
  have apart : (Submissions.ofActions (devWaiting ++ Action.beginDirect devTransfer .zero ::
      [Action.advanceDirect])).ToldApart := by
    simp only [Submissions.ToldApart, Submissions.ofActions, devWaiting, List.cons_append,
      List.nil_append, List.flatMap_cons, List.flatMap_nil, Action.blocks, List.mem_cons,
      List.not_mem_nil, or_false]
    rintro block (rfl | rfl) other (rfl | rfl) same
    · rfl
    · exact absurd same.symm different
    · exact absurd same different
    · rfl
  exact ⟨_, _, waiting, rfl, rfl, found,
    parked_queued_or_turned_away .zero none apart accepted rfl rfl found⟩

/-- A parked block that has been driven out by force before is taken up and is then nowhere. -/
theorem devReturn_lost : ¬ ∀ (actions : List Action) (now : Timestamp) (block : Block)
    (answer : Except Failure Receipt) (after : Processor Tables),
    (∀ action ∈ actions, ∀ block ∈ action.blocks, devSetup.work.accepts block) →
      devSetup.work.accepts block →
      (devFresh.run devSetup actions).takeDirect devSetup now block = some (answer, after) →
      ∀ key, (devFresh.run devSetup actions).store.parked.contains key →
        after.store.parked.contains key ∨ after.IsQueued key.hash ∨
          after.store.blocks.contains key.hash := by
  intro neverLost
  obtain ⟨-, ⟨isParked, accepted, alsoAccepted⟩, isLost⟩ := devRuns_evaluated
  obtain ⟨⟨answer, after⟩, takes, lost⟩ := (Option.any_eq_true _ _).mp isLost
  simp only [Bool.and_eq_true, Bool.not_eq_true', List.isEmpty_iff] at lost
  obtain ⟨⟨notParked, nothingQueued⟩, notStored⟩ := lost
  rcases neverLost devQuarrel .zero devTransfer answer after accepted alsoAccepted takes _ isParked
    with parked | ⟨item, member, -⟩ | stored
  · simp [notParked] at parked
  · simp [nothingQueued] at member
  · simp [notStored] at stored

end Development

end Processor

end AccountChains
