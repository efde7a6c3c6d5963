import AccountChains.Proofs.Intake.Moves
import AccountChains.Proofs.Intake.Vouching
import AccountChains.Proofs.Ledger.Untouched

/-!
Contract: what may be under way in an intake.

A charter says which blocks have been handed in, which of them may be forced, and what
every ledger is to be that a transaction sees. An intake obeys it if all blocks that it
holds have been handed in (the queued ones, those in the hands of a thread, the shared
copies, and those that are parked in any ledger), forced blocks are those that may be,
and every ledger is as it is to be. Nothing comes from nowhere: if offering and forcing
such blocks keeps the ledger as it is to be, then so does every step of every thread.

Owns: `Charter`, what it asks of an intake, and that runs obey it. Does not own: any
particular charter.
-/

namespace AccountChains

open Ledger

/-- The blocks that a run hands in. -/
def Submissions.ofActions (actions : List Action) : Submissions :=
  ⟨actions.flatMap Action.blocks, []⟩

theorem Submissions.mem_ofActions {actions : List Action} {block : Block} :
    block ∈ (ofActions actions).blocks ↔ ∃ action ∈ actions, block ∈ action.blocks :=
  List.mem_flatMap

/-- What may be under way: the blocks that have been handed in, those that may be forced, and what
a ledger is to be. -/
structure Charter where
  submissions : Submissions
  forced : Block → Prop
  ledger : Tables → Prop

namespace Charter

/-- A ledger is as it is to be, and only blocks that have been handed in are parked. -/
structure Admits (charter : Charter) (tables : Tables) : Prop where
  ledger : charter.ledger tables
  parked : ∀ {key waiting}, tables.parked.get? key = some waiting →
    waiting.block ∈ charter.submissions.blocks

/-- A ledger stays as it is to be when blocks of the charter are offered or forced. -/
structure Upheld (setup : IntakeSetup) (charter : Charter) : Prop where
  demotes : ∀ {block}, charter.forced block → block ∈ charter.submissions.blocks
  reparks : ∀ {tables} parked, charter.ledger tables → charter.ledger { tables with parked }
  takes : ∀ {now hint block receipt tables written}, block ∈ charter.submissions.blocks →
    charter.ledger tables →
    (process setup.constants now hint block).run tables = (.ok receipt, written) →
    charter.ledger written
  fails : ∀ {now hint block cause tables written}, block ∈ charter.submissions.blocks →
    charter.ledger tables →
    (process setup.constants now hint block).run tables = (.error (.error cause), written) →
    charter.ledger written
  clears : ∀ {block loser tables cleared}, charter.forced block → charter.ledger tables →
    Bench.Clears block tables loser cleared → charter.ledger cleared

/-- Whatever has been handed in may be forced, and a ledger may be anything. -/
def lenient (submissions : Submissions) : Charter where
  submissions := submissions
  forced block := block ∈ submissions.blocks
  ledger _ := True

theorem upheld_lenient (setup : IntakeSetup) (submissions : Submissions) :
    (lenient submissions).Upheld setup where
  demotes forced := forced
  reparks _ _ := trivial
  takes _ _ _ := trivial
  fails _ _ _ := trivial
  clears _ _ _ := trivial

theorem admits_lenient_started (submissions : Submissions) (constants : LedgerConstants)
    (now : Timestamp) (version : Option UInt32) :
    (lenient submissions).Admits (started constants now .empty version) :=
  ⟨trivial, fun found => nomatch found⟩

end Charter

variable {charter : Charter}

/-- What the worker has in hand has been handed in, and its transaction sees a ledger as it is to
be. -/
def Worker.Obeys (charter : Charter) : Worker Tables → Prop
  | .verifyingAhead _ drained => ∀ item ∈ drained, item.block ∈ charter.submissions.blocks
  | .choosing batch | .committing batch => charter.Admits batch.store
  | .verifying batch drained => charter.Admits batch.store ∧
      ∀ item ∈ drained, item.block ∈ charter.submissions.blocks
  | .handling batch (.ready item) => charter.Admits batch.store ∧
      item.block ∈ charter.submissions.blocks
  | .handling batch (.forced handle) => charter.Admits batch.store ∧ charter.forced handle.block
  | .requeueing batch _ requeue => charter.Admits batch.store ∧
      ∀ waiting ∈ requeue.rest, waiting.block ∈ charter.submissions.blocks
  | .absent | .idle | .woken | .opening | .emitting _ | .closing | .finished | .crashed _ => True

theorem Worker.IsFree.obeys {worker : Worker Tables} (isFree : worker.IsFree) :
    worker.Obeys charter := by
  cases worker <;> trivial

structure DirectCall.Obeys (charter : Charter) (call : DirectCall Tables) : Prop where
  store : charter.Admits call.store
  requeue : ∀ requeue, call.requeue = some requeue →
    ∀ waiting ∈ requeue.rest, waiting.block ∈ charter.submissions.blocks

theorem DirectCall.Obeys.next {call : DirectCall Tables} {requeue : Requeue}
    {waiting : ParkedBlock} {rest : List ParkedBlock} (obeys : call.Obeys charter)
    (requeueing : call.requeue = some requeue) (isNext : requeue.rest = waiting :: rest) :
    waiting.block ∈ charter.submissions.blocks :=
  obeys.requeue requeue requeueing waiting (isNext ▸ List.mem_cons_self)

namespace Processor

structure Obeys (charter : Charter) (processor : Processor Tables) : Prop where
  store : charter.Admits processor.store
  queued : ∀ item ∈ processor.queues.items, item.block ∈ charter.submissions.blocks
  forced : ∀ handle ∈ processor.queues.forced, charter.forced handle.block
  shared : processor.interner.Attested charter.submissions
  worker : processor.worker.Obeys charter
  direct : ∀ call, processor.direct = some call → call.Obeys charter

end Processor

/-! ## Handling a block -/

/-- Making room for a forced block makes no difference to what is parked. -/
theorem Bench.Clears.parked_eq {block : Block} {tables cleared : Tables} {loser : Option BlockHash}
    (clears : Bench.Clears block tables loser cleared) : cleared.parked = tables.parked := by
  cases clears with
  | vacant => rfl
  | stuck | undone => exact parked_rollback _ _

namespace Charter

variable {setup : IntakeSetup} {item : QueuedBlock} {tables written : Tables}

/-- What handling a block leaves parked has been handed in, and so has what it queues again. -/
theorem Admits.disposes {receipt : Receipt} {requeue : Option Requeue}
    {parked : Table ParkedKey ParkedBlock} (upheld : charter.Upheld setup)
    (admits : charter.Admits tables) (handed : item.block ∈ charter.submissions.blocks)
    (disposes : Bench.Disposes setup.settings item receipt tables.parked requeue parked) :
    charter.Admits { tables with parked } ∧ ∀ other, requeue = some other →
      ∀ waiting ∈ other.rest, waiting.block ∈ charter.submissions.blocks := by
  refine ⟨⟨upheld.reparks parked admits.ledger, fun found => ?_⟩, ?_⟩
  · cases disposes with
    | leaves => exact admits.parked found
    | parks dependency =>
        rcases Table.of_get?_insert found with ⟨-, rfl⟩ | found
        · exact handed
        · exact admits.parked found
    | frees isThere waiting =>
        dsimp only at found
        split at found
        · rw [Table.get?_restrict, Option.filter_eq_some_iff] at found
          exact admits.parked found.1
        · exact admits.parked found
  · rintro other rfl waiting member
    cases disposes with
    | frees isThere taken =>
        rw [show other.rest = _ from taken] at member
        obtain ⟨entry, isEntry, rfl⟩ := List.mem_map.mp member
        exact admits.parked ((Table.mem_entries_iff _ _ _).mp (List.mem_filter.mp isEntry).1)

theorem Admits.takes {now : Timestamp} {hint : Verification} {block : Block} {receipt : Receipt}
    (upheld : charter.Upheld setup) (admits : charter.Admits tables)
    (handed : block ∈ charter.submissions.blocks)
    (ran : (process setup.constants now hint block).run tables = (.ok receipt, written)) :
    charter.Admits written := by
  exact ⟨upheld.takes handed admits.ledger ran,
    fun found => admits.parked (parked_process ran ▸ found)⟩

theorem Admits.fails {now : Timestamp} {hint : Verification} {block : Block} {cause : LedgerError}
    (upheld : charter.Upheld setup) (admits : charter.Admits tables)
    (handed : block ∈ charter.submissions.blocks)
    (ran : (process setup.constants now hint block).run tables
      = (.error (.error cause), written)) : charter.Admits written := by
  exact ⟨upheld.fails handed admits.ledger ran,
    fun found => admits.parked (parked_process ran ▸ found)⟩

theorem Admits.clears {block : Block} {loser : Option BlockHash} (upheld : charter.Upheld setup)
    (admits : charter.Admits tables) (mayForce : charter.forced block)
    (clears : Bench.Clears block tables loser written) : charter.Admits written := by
  exact ⟨upheld.clears mayForce admits.ledger clears,
    fun found => admits.parked (clears.parked_eq ▸ found)⟩

/-- What an offer leaves in the hands of the worker has been handed in. -/
theorem Admits.offered {now : Timestamp} {worker : Worker Tables} (upheld : charter.Upheld setup)
    (admits : charter.Admits tables) (offered : Processor.Offered setup now item tables worker)
    (handed : item.block ∈ charter.submissions.blocks) : worker.Obeys charter := by
  cases offered with
  | crashed => trivial
  | failed ran => exact admits.fails upheld handed ran
  | settled ran disposes =>
      exact ((admits.takes upheld handed ran).disposes upheld handed disposes).1
  | frees ran disposes =>
      obtain ⟨stillAdmits, requeues⟩ :=
        (admits.takes upheld handed ran).disposes upheld handed disposes
      exact ⟨stillAdmits, requeues _ rfl⟩

end Charter

/-! ## Queues -/

namespace Queues

variable {queues rest : Queues} {other : QueuedBlock}

section Draining

variable {limit : Nat} {drained : List QueuedBlock}
  (drains : queues.drain limit = (drained, rest))

include drains

theorem forced_drain : rest.forced = queues.forced := by
  obtain ⟨-, rfl⟩ := Prod.mk.inj drains
  rfl

theorem hashes_drain : rest.hashes = queues.hashes := by
  obtain ⟨-, rfl⟩ := Prod.mk.inj drains
  rfl

/-- Blocks that are taken out to be checked and blocks that stay make up what was there. -/
theorem mem_items_drain : other ∈ queues.items ↔ other ∈ drained ∨ other ∈ rest.items := by
  obtain ⟨rfl, rfl⟩ := Prod.mk.inj drains
  unfold Lanes.items
  conv_lhs => rw [← List.take_append_drop
    (min queues.unverified.length (max limit 1)) queues.unverified]
  simp only [List.mem_append]
  tauto

end Draining

end Queues

namespace Processor

variable {setup : IntakeSetup} {processor next : Processor Tables}

/-! ## Steps -/

namespace Obeys

section Stepping

variable {item : QueuedBlock} (obeys : processor.Obeys charter)

include obeys

theorem arrives (arrives : Arrives setup item processor next)
    (handed : item.block ∈ charter.submissions.blocks) : next.Obeys charter := by
  cases arrives with
  | @turnedAway isHeld copy interner copies metrics accepts interned refused =>
      have shared := obeys.shared.intern isHeld handed
      rw [interned] at shared
      exact { obeys with shared := shared.2 }
  | @queued isHeld copy interner copies accepts interned admitted =>
      have shared := obeys.shared.intern isHeld handed
      rw [interned] at shared
      obtain ⟨⟨copyHanded, -⟩, shared⟩ := shared
      refine { obeys with shared, queued := fun other member => ?_, forced := ?_ }
      · rcases Lanes.mem_items_enqueue.mp member with rfl | queued
        · exact copyHanded
        · exact obeys.queued other queued
      · rw [Queues.forced_enqueue]
        exact obeys.forced

theorem putBack (view : Tables) {drained : List QueuedBlock}
    (handed : ∀ item ∈ drained, item.block ∈ charter.submissions.blocks) :
    (processor.putBack setup view drained).Obeys charter := by
  obtain ⟨hashes, metrics, isPut, -⟩ := processor.putBack_spec setup view drained
  rw [isPut]
  refine { obeys with queued := fun item member => ?_ }
  simp only [Lanes.items, List.mem_append, List.mem_map, List.mem_filter] at member
  rcases member with (ready | ⟨checked, ⟨isDrained, -⟩, rfl⟩) | unverified
  · exact obeys.queued item (List.mem_append_left _ ready)
  · rw [QueuedBlock.block_settled]
    exact handed checked isDrained
  · exact obeys.queued item (List.mem_append_right _ unverified)

theorem drains {limit : Nat} {drained : List QueuedBlock} {rest : Queues}
    (drains : processor.queues.drain limit = (drained, rest)) :
    (∀ item ∈ drained, item.block ∈ charter.submissions.blocks) ∧
      Obeys charter { processor with queues := rest } :=
  ⟨fun item member => obeys.queued item ((Queues.mem_items_drain drains).mpr (.inl member)),
    { obeys with
      queued := fun item member =>
        obeys.queued item ((Queues.mem_items_drain drains).mpr (.inr member))
      forced := Queues.forced_drain drains ▸ obeys.forced }⟩

/-- A block that is taken out to be handled has been handed in, or may be forced. -/
theorem takes {batch : Batch Tables} {taken : Queues.Taken} {rest : Queues}
    (admits : charter.Admits batch.store)
    (takes : processor.queues.take? = some (taken, rest)) :
    Obeys charter { processor with queues := rest, worker := .handling batch taken } := by
  unfold Queues.take? at takes
  split at takes
  · next isForced =>
      obtain ⟨rfl, rfl⟩ := Prod.mk.inj (Option.some.inj takes)
      have forced := obeys.forced
      rw [isForced] at forced
      obtain ⟨isFirst, others⟩ := List.forall_mem_cons.mp forced
      exact { obeys with forced := others, worker := ⟨admits, isFirst⟩ }
  · next unforced ready =>
      obtain ⟨rfl, rfl⟩ := Prod.mk.inj (Option.some.inj takes)
      have queued := obeys.queued
      rw [Lanes.items, ready] at queued
      obtain ⟨isFirst, others⟩ := List.forall_mem_cons.mp queued
      exact { obeys with
        queued := others, forced := unforced ▸ obeys.forced, worker := ⟨admits, isFirst⟩ }
  · cases takes

/-- Whatever a thread does with blocks of the charter, the intake obeys it. -/
theorem moves {action : Action} (upheld : charter.Upheld setup)
    (handed : ∀ block ∈ action.blocks, block ∈ charter.submissions.blocks)
    (mayForce : ∀ block, action = .force block → charter.forced block)
    (moves : Moves setup processor action next) : next.Obeys charter := by
  have inHand := obeys.worker
  cases moves with
  | stays => exact obeys
  | add arrives => exact obeys.arrives arrives (handed _ List.mem_cons_self)
  | @addKnown known given now _ isBlock arrives =>
      have isHanded : given.block ∈ charter.submissions.blocks := by
        rw [isBlock]
        exact handed known.block List.mem_cons_self
      exact obeys.arrives arrives isHanded
  | force block =>
      exact { obeys with
        forced := List.forall_mem_append.mpr
          ⟨obeys.forced, List.forall_mem_singleton.mpr (mayForce block rfl)⟩ }
  | stop => exact { obeys with }
  | turns wasFree isFree => exact { obeys with worker := isFree.obeys }
  | drainsAhead woken drains =>
      obtain ⟨checked, stays⟩ := obeys.drains drains
      exact { stays with worker := checked }
  | returnsAhead verifying =>
      rw [verifying] at inHand
      exact { obeys.putBack _ inHand with worker := trivial }
  | opens => exact { obeys with worker := obeys.store }
  | drains choosing drains =>
      rw [choosing] at inHand
      obtain ⟨checked, stays⟩ := obeys.drains drains
      exact { stays with worker := ⟨inHand, checked⟩ }
  | returns verifying =>
      rw [verifying] at inHand
      exact { obeys.putBack _ inHand.2 with worker := inHand.1 }
  | takes choosing takes =>
      rw [choosing] at inHand
      exact obeys.takes inHand takes
  | ends choosing =>
      rw [choosing] at inHand
      exact { obeys with worker := inHand }
  | handles handling offered =>
      rw [handling] at inHand
      exact { obeys with worker := inHand.1.offered upheld offered inHand.2 }
  | @forces moment batch block loser store worker metrics handling clears offered =>
      rw [handling] at inHand
      have stillAdmits := inHand.1.clears upheld inHand.2 clears
      have obeysOffered := stillAdmits.offered upheld offered (upheld.demotes inHand.2)
      cases loser with
      | none => exact { obeys with worker := obeysOffered }
      | some loser => exact { obeys with worker := obeysOffered }
  | forcesInVain => exact { obeys with worker := trivial }
  | requeues requeueing isNext arrives =>
      rw [requeueing] at inHand
      obtain ⟨admits, waits⟩ := inHand
      rw [isNext] at waits
      obtain ⟨isHanded, restHanded⟩ := List.forall_mem_cons.mp waits
      exact { obeys.arrives arrives isHanded with worker := ⟨admits, restHanded⟩ }
  | requeued requeueing =>
      rw [requeueing] at inHand
      exact { obeys with worker := inHand.1 }
  | requeuesWeak => exact { obeys with worker := trivial }
  | commits committing =>
      rw [committing] at inHand
      exact { obeys with store := inHand, worker := trivial }
  | begins alone closed offers =>
      cases offers with
      | answered ran disposes =>
          obtain ⟨admits, requeues⟩ := (obeys.store.takes upheld (handed _ List.mem_cons_self)
            ran).disposes upheld (handed _ List.mem_cons_self) disposes
          refine { obeys with direct := ?_ }
          rintro call ⟨⟩
          exact ⟨admits, requeues⟩
  | beginsInVain => exact { obeys with }
  | directRequeues calls requeueing isNext arrives =>
      obtain ⟨admits, waits⟩ := obeys.direct _ calls
      have waits := waits _ requeueing
      rw [isNext] at waits
      obtain ⟨isHanded, restHanded⟩ := List.forall_mem_cons.mp waits
      refine { obeys.arrives arrives isHanded with direct := ?_ }
      rintro call ⟨⟩
      refine ⟨admits, ?_⟩
      rintro requeue ⟨⟩
      exact restHanded
  | directRequeued calls =>
      refine { obeys with direct := ?_ }
      rintro call ⟨⟩
      exact ⟨(obeys.direct _ calls).store, by simp⟩
  | directRequeuesWeak => exact { obeys with direct := by simp }
  | directCommits calls =>
      exact { obeys with store := (obeys.direct _ calls).store, direct := by simp }

end Stepping

/-! ## Runs -/

/-- An intake goes on to obey a charter as long as only blocks of the charter are handed in. -/
theorem run (upheld : charter.Upheld setup) {actions : List Action}
    (handed : ∀ action ∈ actions, ∀ block ∈ action.blocks, block ∈ charter.submissions.blocks)
    (mayForce : ∀ block, .force block ∈ actions → charter.forced block)
    (obeys : processor.Obeys charter) : (processor.run setup actions).Obeys charter :=
  run_induction (fun done obeys moves => obeys.moves upheld (handed _ done)
    (fun block forces => mayForce block (forces ▸ done)) moves) obeys

end Obeys

/-- A new intake holds nothing yet but what is parked in its ledger. -/
theorem obeys_new {store : Tables} (admits : charter.Admits store) (settings : IntakeSettings) :
    (Processor.new settings store).Obeys charter where
  store := admits
  queued := by simp [Processor.new, Queues.empty, Lanes.items]
  forced := by simp [Processor.new, Queues.empty]
  shared := Interner.attested_empty charter.submissions
  worker := trivial
  direct := by simp [Processor.new]

end Processor

end AccountChains
