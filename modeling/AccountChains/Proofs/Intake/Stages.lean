import AccountChains.Proofs.Intake.Retrieval

/-!
Contract: where queued blocks are, and what the hashes of the queues say.

A queued block is ready, or waits to be checked, or is being checked, or is in the
hands of the worker. A step of a thread does one of few things to them: it queues one
more block, takes some out to be checked or puts them back, takes the next one in hand,
or hands that one over to the ledger. The lock is given up while blocks are checked and
while one is handled, so any of these may be done between any two steps of the worker.

Owns: `Stages`, that every move is a shift of them, and that the hashes are exactly
those of the blocks that may not be queued again. Does not own: which block comes when.
-/

namespace AccountChains

open Ledger

/-- Where the blocks are that have been queued. -/
structure Stages extends Lanes where
  /-- Being checked, with the ledger that they are checked against. -/
  checking : Option (Tables × List QueuedBlock)
  /-- Taken out by the worker, which is about to offer it to the ledger. -/
  inHand : Option QueuedBlock

namespace Stages

/-- The blocks that are being checked. -/
def drained (stages : Stages) : List QueuedBlock := (stages.checking.map Prod.snd).getD []

/-- The blocks that are not queued a second time. -/
def listed (stages : Stages) : List QueuedBlock :=
  stages.items ++ stages.drained

/-- The hashes are those of the blocks that are queued or being checked, and no two of these
blocks have the same. -/
structure Exact (stages : Stages) : Prop where
  contains_iff : ∀ hash, stages.hashes.contains hash ↔ ∃ item ∈ stages.listed, item.hash = hash
  distinct : (stages.listed.map QueuedBlock.hash).Nodup

/-- Queue one more block. -/
def queue (item : QueuedBlock) (stages : Stages) : Stages :=
  { stages with toLanes := stages.toLanes.enqueue item.hash item }

/-- What one step can do. -/
inductive Shifts (links : EpochLinks) (stages : Stages) : Stages → Prop where
  | rests : Shifts links stages stages
  | queues {item : QueuedBlock} (isNew : stages.hashes.contains item.hash = false) :
      Shifts links stages (stages.queue item)
  | drains {view : Tables} (count : Nat) (idle : stages.checking = none) :
      Shifts links stages { stages with
        checking := some (view, stages.unverified.take count)
        unverified := stages.unverified.drop count }
  /-- Checked blocks are put back but for those that are dropped, and these lose their place
  among the hashes. -/
  | returns {view : Tables} {drained : List QueuedBlock} {hashes : Table BlockHash Unit}
      (checked : stages.checking = some (view, drained))
      (contains_iff : ∀ hash, hashes.contains hash ↔ stages.hashes.contains hash ∧
        ∀ item ∈ drained, item.isDropped links view → item.hash ≠ hash) :
      Shifts links stages { stages with
        checking := none
        ready := stages.ready ++ (drained.filter fun item => !item.isDropped links view).map
          (QueuedBlock.settled links)
        hashes }
  | takes {item : QueuedBlock} {rest : List QueuedBlock} (isNext : stages.ready = item :: rest)
      (free : stages.inHand = none) :
      Shifts links stages { stages with
        ready := rest, inHand := some item, hashes := stages.hashes.erase item.hash }
  | hands {item : QueuedBlock} (holds : stages.inHand = some item) :
      Shifts links stages { stages with inHand := none }

/-! ## The hashes -/

section Hashes

variable {links : EpochLinks} {stages next : Stages}

/-- Which blocks are listed matters, and not in which order. -/
theorem Exact.of_perm (exact : stages.Exact) (hashes : next.hashes = stages.hashes)
    (sameListed : next.listed.Perm stages.listed) : next.Exact where
  contains_iff hash := by
    rw [hashes, exact.contains_iff]
    exact ⟨fun ⟨item, member, isHash⟩ => ⟨item, sameListed.mem_iff.mpr member, isHash⟩,
      fun ⟨item, member, isHash⟩ => ⟨item, sameListed.mem_iff.mp member, isHash⟩⟩
  distinct := (sameListed.map _).nodup_iff.mpr exact.distinct

theorem listed_queue (item : QueuedBlock) (stages : Stages) :
    (stages.queue item).listed.Perm (item :: stages.listed) :=
  (Lanes.items_enqueue item.hash item stages.toLanes).append_right stages.drained

theorem Exact.queue {item : QueuedBlock} (exact : stages.Exact)
    (isNew : stages.hashes.contains item.hash = false) : (stages.queue item).Exact := by
  have sameListed := listed_queue item stages
  refine ⟨fun hash => ?_, ?_⟩
  · have contained : (stages.queue item).hashes.contains hash
        ↔ hash = item.hash ∨ stages.hashes.contains hash := Lanes.contains_enqueue
    simp only [sameListed.mem_iff, List.mem_cons, exists_eq_or_imp]
    rw [contained, exact.contains_iff, @eq_comm _ hash]
  · rw [(sameListed.map _).nodup_iff, List.map_cons, List.nodup_cons]
    refine ⟨fun again => ?_, exact.distinct⟩
    have contained := (exact.contains_iff item.hash).mpr (List.mem_map.mp again)
    simp [isNew] at contained

theorem listed_of_checking {view : Tables} {drained : List QueuedBlock}
    (checked : stages.checking = some (view, drained)) :
    stages.listed = stages.ready ++ stages.unverified ++ drained := by
  simp [listed, Lanes.items, Stages.drained, checked]

section Returning

variable {view : Tables} {drained : List QueuedBlock} {hashes : Table BlockHash Unit}
  (exact : stages.Exact) (checked : stages.checking = some (view, drained))
  (contains_iff : ∀ hash, hashes.contains hash ↔ stages.hashes.contains hash ∧
    ∀ item ∈ drained, item.isDropped links view → item.hash ≠ hash)

include exact checked contains_iff

/-- Of the checked blocks, just those that are dropped give up their hash: no other block that is
listed has it. -/
theorem Exact.contains_returned {item : QueuedBlock} (member : item ∈ drained) :
    hashes.contains item.hash = !item.isDropped links view := by
  have isListed := listed_of_checking checked
  have distinct := exact.distinct
  rw [isListed, List.map_append] at distinct
  rw [Bool.eq_iff_iff, contains_iff, exact.contains_iff, isListed, Bool.not_eq_true']
  constructor
  · rintro ⟨-, notDropped⟩
    by_contra dropped
    exact notDropped item member (by simpa using dropped) rfl
  · refine fun isKept => ⟨⟨item, List.mem_append_right _ member, rfl⟩, ?_⟩
    intro other otherMember dropped same
    obtain rfl := List.inj_on_of_nodup_map (List.nodup_append.mp distinct).2.1 otherMember member
      same
    simp [isKept] at dropped

/-- A block that is not being checked keeps its hash: no block that is dropped has the same. -/
theorem Exact.contains_beside {item : QueuedBlock}
    (member : item ∈ stages.ready ++ stages.unverified) : hashes.contains item.hash := by
  have isListed := listed_of_checking checked
  have distinct := exact.distinct
  rw [isListed, List.map_append] at distinct
  obtain ⟨-, -, apart⟩ := List.nodup_append.mp distinct
  rw [contains_iff, exact.contains_iff, isListed]
  refine ⟨⟨item, List.mem_append_left _ member, rfl⟩, fun other isDrained _ same => ?_⟩
  exact apart _ (List.mem_map_of_mem member) _ (List.mem_map_of_mem isDrained) same.symm

omit contains_iff in
/-- The blocks that are put back are some of those that were being checked, with the same hashes. -/
theorem Exact.distinct_returned (isKept : QueuedBlock → Bool) :
    ((stages.ready ++ (drained.filter isKept).map (QueuedBlock.settled links)
      ++ stages.unverified).map QueuedBlock.hash).Nodup := by
  have sameHashes : ((drained.filter isKept).map (QueuedBlock.settled links)).map QueuedBlock.hash
      = (drained.filter isKept).map QueuedBlock.hash := by
    simp only [List.map_map, Function.comp_def, QueuedBlock.hash_settled]
  have smaller : ((drained.filter isKept).map QueuedBlock.hash).Sublist
      (drained.map QueuedBlock.hash) := List.filter_sublist.map QueuedBlock.hash
  have distinct := exact.distinct
  rw [listed_of_checking checked, List.map_append] at distinct
  have stillDistinct := distinct.sublist (smaller.append_left _)
  rw [List.map_append, List.append_assoc] at stillDistinct
  rw [List.map_append, List.map_append, sameHashes, List.append_assoc]
  exact (List.Perm.append_left _ List.perm_append_comm).nodup_iff.mp stillDistinct

/-- Putting checked blocks back takes the hashes of the dropped ones away, and leaves those of all
others. -/
theorem Exact.returns : Exact { stages with
    checking := none
    ready := stages.ready ++ (drained.filter fun item => !item.isDropped links view).map
      (QueuedBlock.settled links)
    hashes } := by
  refine ⟨fun hash => ?_, ?_⟩
  · simp only [listed, Lanes.items, Stages.drained, Option.map_none, Option.getD_none,
      List.append_nil, List.mem_append, List.mem_map, List.mem_filter]
    constructor
    · intro contained
      obtain ⟨item, member, rfl⟩ :=
        (exact.contains_iff hash).mp ((contains_iff hash).mp contained).1
      rw [listed_of_checking checked, List.mem_append, List.mem_append] at member
      rcases member with (ready | unverified) | isDrained
      · exact ⟨item, .inl (.inl ready), rfl⟩
      · exact ⟨item, .inr unverified, rfl⟩
      · rw [exact.contains_returned checked contains_iff isDrained] at contained
        exact ⟨item.settled links, .inl (.inr ⟨item, ⟨isDrained, contained⟩, rfl⟩),
          QueuedBlock.hash_settled links item⟩
    · rintro ⟨item, (ready | ⟨origin, ⟨isDrained, isKept⟩, rfl⟩) | unverified, rfl⟩
      · exact exact.contains_beside checked contains_iff (List.mem_append_left _ ready)
      · rw [QueuedBlock.hash_settled, exact.contains_returned checked contains_iff isDrained]
        exact isKept
      · exact exact.contains_beside checked contains_iff (List.mem_append_right _ unverified)
  · simp only [listed, Lanes.items, Stages.drained, Option.map_none, Option.getD_none,
      List.append_nil]
    exact exact.distinct_returned checked _

end Returning

theorem Exact.takes {item : QueuedBlock} {rest : List QueuedBlock} (exact : stages.Exact)
    (isNext : stages.ready = item :: rest) :
    Exact { stages with
      ready := rest, inHand := some item, hashes := stages.hashes.erase item.hash } := by
  have wasListed : stages.listed = item :: (rest ++ stages.unverified ++ stages.drained) := by
    simp [listed, Lanes.items, isNext]
  have distinct := exact.distinct
  rw [wasListed, List.map_cons, List.nodup_cons] at distinct
  refine ⟨fun hash => ?_, distinct.2⟩
  rw [Table.contains, Table.get?_erase]
  by_cases same : hash = item.hash
  · simp only [same, if_pos, Option.isSome_none, Bool.false_eq_true, false_iff]
    exact fun held => distinct.1 (List.mem_map.mpr held)
  · rw [if_neg same, ← Table.contains, exact.contains_iff, wasListed]
    simp only [List.mem_cons, exists_eq_or_imp, Ne.symm same, false_or]
    rfl

theorem Exact.shifts (exact : stages.Exact) (shifts : Shifts links stages next) : next.Exact := by
  cases shifts with
  | rests => exact exact
  | queues isNew => exact exact.queue isNew
  | drains count idle =>
      refine exact.of_perm rfl ?_
      simp only [listed, Lanes.items, drained, idle, Option.map_none, Option.map_some,
        Option.getD_none, Option.getD_some, List.append_nil, List.append_assoc]
      refine List.Perm.append_left _ (List.perm_append_comm.trans ?_)
      rw [List.take_append_drop]
  | returns checked contains_iff => exact exact.returns checked contains_iff
  | takes isNext free => exact exact.takes isNext
  | hands => exact exact.of_perm rfl (.refl _)

end Hashes

end Stages

/-! ## What a thread does -/

/-- What the worker has under check. -/
def Worker.checking : Worker Tables → Option (Tables × List QueuedBlock)
  | .verifyingAhead snapshot drained => some (snapshot, drained)
  | .verifying batch drained => some (batch.store, drained)
  | _ => none

/-- The queued block that the worker is about to offer. -/
def Worker.inHand? : Worker Tables → Option QueuedBlock
  | .handling _ (.ready item) => some item
  | _ => none

theorem Worker.IsFree.empty_handed {worker : Worker Tables}
    (isBare : worker.IsFree ∨ ∃ cause, worker = .crashed cause) :
    worker.checking = none ∧ worker.inHand? = none := by
  rcases isBare with isFree | ⟨cause, rfl⟩
  · cases worker <;> first | exact ⟨rfl, rfl⟩ | exact isFree.elim
  · exact ⟨rfl, rfl⟩

namespace Processor

/-- Where the queued blocks are. -/
def stages (processor : Processor Tables) : Stages where
  toLanes := processor.queues.toLanes
  checking := processor.worker.checking
  inHand := processor.worker.inHand?

variable {setup : IntakeSetup} {processor next : Processor Tables} {submissions : Submissions}
  {item : QueuedBlock}

theorem Offered.empty_handed {now : Timestamp} {store : Tables} {worker : Worker Tables}
    (offered : Offered setup now item store worker) :
    worker.checking = none ∧ worker.inHand? = none := by
  cases offered <;> exact ⟨rfl, rfl⟩

/-- A block that arrives is queued in one place, under its own hash, or turned away. -/
theorem Arrives.shifts (arrives : Arrives setup item processor next)
    (obeys : processor.Obeys (.lenient submissions)) (apart : submissions.ToldApart)
    (handed : item.block ∈ submissions.blocks) (worker : Worker Tables)
    (checking : worker.checking = processor.worker.checking)
    (inHand : worker.inHand? = processor.worker.inHand?) :
    Stages.Shifts setup.constants.epochs processor.stages
      (stages { next with worker }) := by
  cases arrives with
  | turnedAway =>
      simp only [stages, checking, inHand]
      exact .rests
  | @queued isHeld copy interner copies accepts interned admitted =>
      have shared := obeys.shared.intern isHeld handed
      rw [interned] at shared
      obtain ⟨⟨copyHanded, sameDigest⟩, -⟩ := shared
      have isHash : QueuedBlock.hash { item with handle := copy } = item.hash :=
        apart _ copyHanded _ handed sameDigest
      have isNew : processor.queues.hashes.contains
          (QueuedBlock.hash { item with handle := copy }) = false := by
        rw [isHash]
        exact (Bool.or_eq_false_iff.mp admitted).1
      have isQueued : stages { processor with
            interner, copies, worker
            queues := processor.queues.enqueue item.hash { item with handle := copy } }
          = processor.stages.queue { item with handle := copy } := by
        rw [← isHash]
        simp only [stages, Stages.queue, Queues.toLanes_enqueue, checking, inHand]
      rw [isQueued]
      exact .queues isNew

theorem shifts_putBack (view : Tables) {drained : List QueuedBlock} {worker : Worker Tables}
    (checked : processor.worker.checking = some (view, drained))
    (idle : worker.checking = none) (inHand : worker.inHand? = processor.worker.inHand?) :
    Stages.Shifts setup.constants.epochs processor.stages
      (stages { processor.putBack setup view drained with worker }) := by
  obtain ⟨hashes, metrics, isPut, contains_iff⟩ := processor.putBack_spec setup view drained
  rw [isPut]
  simp only [stages, idle, inHand]
  exact .returns checked contains_iff

theorem shifts_drain (view : Tables) {limit : Nat} {drained : List QueuedBlock} {queues : Queues}
    {worker : Worker Tables} (drains : processor.queues.drain limit = (drained, queues))
    (idle : processor.worker.checking = none) (checking : worker.checking = some (view, drained))
    (inHand : worker.inHand? = processor.worker.inHand?) :
    Stages.Shifts setup.constants.epochs processor.stages
      (stages { processor with queues, worker }) := by
  obtain ⟨rfl, rfl⟩ := Prod.mk.inj drains
  simp only [stages, checking, inHand]
  exact .drains _ idle

/-- Forced blocks are not queued among the others. -/
theorem shifts_take {batch : Batch Tables} {taken : Queues.Taken} {queues : Queues}
    (choosing : processor.worker = .choosing batch)
    (takes : processor.queues.take? = some (taken, queues)) :
    Stages.Shifts setup.constants.epochs processor.stages
      (stages { processor with queues, worker := .handling batch taken }) := by
  unfold Queues.take? at takes
  split at takes
  · obtain ⟨rfl, rfl⟩ := Prod.mk.inj (Option.some.inj takes)
    simp only [stages, choosing]
    exact .rests
  · next first rest unforced isNext =>
      obtain ⟨rfl, rfl⟩ := Prod.mk.inj (Option.some.inj takes)
      simp only [stages, choosing]
      exact .takes isNext rfl
  · exact nomatch takes

/-- Whatever a thread does with blocks that have been handed in, it is one shift. -/
theorem Obeys.shifts {action : Action} (obeys : processor.Obeys (.lenient submissions))
    (apart : submissions.ToldApart)
    (handed : ∀ block ∈ action.blocks, block ∈ submissions.blocks)
    (moves : Moves setup processor action next) :
    Stages.Shifts setup.constants.epochs processor.stages next.stages := by
  have waits := obeys.worker
  cases moves with
  | stays | force | stop | begins | beginsInVain | directRequeued | directRequeuesWeak
  | directCommits => exact .rests
  | add arrives =>
      have worker := arrives.beside.1
      exact arrives.shifts obeys apart (handed _ List.mem_cons_self) next.worker (by rw [worker])
        (by rw [worker])
  | @addKnown known given now _ isBlock arrives =>
      have worker := arrives.beside.1
      have isHanded : given.block ∈ submissions.blocks := by
        rw [isBlock]
        exact handed known.block List.mem_cons_self
      exact arrives.shifts obeys apart isHanded next.worker (by rw [worker]) (by rw [worker])
  | turns wasFree isFree =>
      obtain ⟨idle, free⟩ := Worker.IsFree.empty_handed wasFree
      obtain ⟨stillIdle, stillFree⟩ := Worker.IsFree.empty_handed (.inl isFree)
      simp only [stages, idle, free, stillIdle, stillFree]
      exact .rests
  | drainsAhead woken drains =>
      exact shifts_drain _ drains (by rw [woken]; rfl) rfl (by rw [woken]; rfl)
  | returnsAhead verifying =>
      exact shifts_putBack _ (by rw [verifying]; rfl) rfl (by rw [verifying]; rfl)
  | drains choosing drains =>
      exact shifts_drain _ drains (by rw [choosing]; rfl) rfl (by rw [choosing]; rfl)
  | returns verifying =>
      exact shifts_putBack _ (by rw [verifying]; rfl) rfl (by rw [verifying]; rfl)
  | takes choosing takes => exact shifts_take choosing takes
  | opens isOpen | ends isOpen | requeued isOpen | requeuesWeak isOpen | commits isOpen
  | forcesInVain isOpen =>
      simp only [stages, isOpen]
      exact .rests
  | handles handling offered =>
      obtain ⟨idle, free⟩ := offered.empty_handed
      simp only [stages, handling, idle, free]
      exact .hands rfl
  | @forces moment batch block loser store worker metrics handling clears offered =>
      obtain ⟨idle, free⟩ := offered.empty_handed
      cases loser with
      | none | some loser =>
          simp only [stages, Queues.remember, handling, idle, free]
          exact .rests
  | requeues requeueing isNext arrives =>
      rw [requeueing] at waits
      exact arrives.shifts obeys apart (waits.2 _ (isNext ▸ List.mem_cons_self)) _
        (by rw [requeueing]; rfl) (by rw [requeueing]; rfl)
  | @directRequeues call requeue waiting rest next calls requeueing isNext arrives =>
      have worker := arrives.beside.1
      exact arrives.shifts obeys apart ((obeys.direct _ calls).next requeueing isNext) next.worker
        (by rw [worker]) (by rw [worker])

end Processor

end AccountChains
