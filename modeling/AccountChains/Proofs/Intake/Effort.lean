import AccountChains.Proofs.Intake.Charter
import AccountChains.Proofs.Intake.Replacement

/-!
Contract: which blocks without enough work get to the queues.

Work is checked where a block is brought to the queues, and a block that is queued by a
caller has passed. A block that is forced, or taken straight into the ledger, is not
checked; but it may be parked, and then it is brought to the queues like any other when
what it waits for is there. The thread that does so ends, be it the worker or the call
that had nothing to do with the block. No other way leads there.

Owns: that every block that ends a thread for its work came past the check, and a run
in which one does. Does not own: whether a block has enough work.
-/

namespace AccountChains

open Ledger

/-- A block without enough work was handed in where work is not checked. -/
def HandedInUnchecked (work : WorkThreshold) (hash : BlockHash) (actions : List Action) : Prop :=
  ∃ block : Block, block.hash = hash ∧ work.accepts block = false ∧
    (.force block ∈ actions ∨ ∃ now, .beginDirect block now ∈ actions)

/-- The blocks that an action brings to the queues itself. -/
def Action.queued : Action → List Block
  | .add block _ => [block]
  | .addKnown known _ => [known.block]
  | .force _ | .beginDirect .. | .start | .stop | .join | .advance _ | .advanceDirect => []

theorem Action.mem_blocks {action : Action} {block : Block} (handed : block ∈ action.blocks) :
    block ∈ action.queued ∨ action = .force block ∨ ∃ now, action = .beginDirect block now := by
  cases action with
  | add | addKnown => exact .inl handed
  | force other => exact .inr (.inl (List.mem_singleton.mp handed ▸ rfl))
  | beginDirect other now => exact .inr (.inr ⟨now, List.mem_singleton.mp handed ▸ rfl⟩)
  | start | stop | join | advance | advanceDirect => exact nomatch handed

/-- A thread has ended over some block that has been handed in without enough work. -/
def Submissions.Weak (work : WorkThreshold) (hash : BlockHash) (submissions : Submissions) : Prop :=
  ∃ block ∈ submissions.blocks, block.hash = hash ∧ work.accepts block = false

/-- The worker ends over work only if somebody has handed in a block without it. -/
def Worker.Blames (work : WorkThreshold) (submissions : Submissions) (worker : Worker Tables) :
    Prop :=
  ∀ hash, worker = .crashed (.insufficientWork hash) → submissions.Weak work hash

namespace Processor

variable {setup : IntakeSetup} {processor next : Processor Tables} {submissions : Submissions}

theorem Offered.blames {now : Timestamp} {item : QueuedBlock} {store : Tables}
    {worker : Worker Tables} (offered : Offered setup now item store worker) :
    worker.Blames setup.work submissions := by
  rintro hash rfl
  cases offered with
  | @crashed fault cause written ran isCrash =>
      exact absurd isCrash (Failure.ofFault_ne_insufficientWork fault hash)

theorem Moves.blames {action : Action} {charter : Charter} (obeys : processor.Obeys charter)
    (blames : processor.worker.Blames setup.work charter.submissions)
    (moves : Moves setup processor action next) :
    next.worker.Blames setup.work charter.submissions := by
  have inHand := obeys.worker
  cases moves with
  | add arrives | addKnown _ arrives => exact arrives.beside.1 ▸ blames
  | directRequeues _ _ _ arrives => exact arrives.beside.1 ▸ blames
  | turns _ isFree =>
      rintro hash rfl
      exact isFree.elim
  | handles _ offered | forces _ _ offered => exact offered.blames
  | forcesInVain _ faulty =>
      rintro hash ⟨⟩
      exact absurd rfl (faulty hash)
  | requeuesWeak requeueing isNext weak =>
      rw [requeueing] at inHand
      rintro hash ⟨⟩
      exact ⟨_, inHand.2 _ (isNext ▸ List.mem_cons_self), rfl, weak⟩
  | stays | force | stop | begins | beginsInVain | directRequeued | directRequeuesWeak
  | directCommits => exact blames
  | drainsAhead | returnsAhead | opens | drains | returns | takes | ends | requeues | requeued
  | commits => rintro hash ⟨⟩

/-- A call that ends over work queues a block again that has been handed in without it. -/
theorem weak_of_advanceDirect {charter : Charter} {call : DirectCall Tables} {hash : BlockHash}
    (obeys : call.Obeys charter)
    (ends : (processor.advanceDirect setup call).1 = some (.error (.insufficientWork hash))) :
    charter.submissions.Weak setup.work hash := by
  unfold advanceDirect at ends
  cases requeueing : call.requeue with
  | none => simp [requeueing] at ends
  | some requeue =>
      simp only [requeueing] at ends
      have requeues := requeues_requeueNext setup processor requeue
      cases outcome : processor.requeueNext setup requeue with
      | error cause =>
          rw [outcome] at requeues ends
          cases requeues with
          | weak isNext weak =>
              obtain ⟨⟩ := ends
              exact ⟨_, obeys.next requeueing isNext, rfl, weak⟩
      | ok result =>
          obtain ⟨queued, rest⟩ := result
          rw [outcome] at ends
          cases rest with
          | none => exact nomatch ends
          | some rest => exact nomatch ends

/-- If a thread ends over the work of a block, then a block with that hash and without enough work
was forced or taken straight into the ledger. -/
theorem weak_handed_in_unchecked {actions : List Action} {final : Processor Tables}
    {hash : BlockHash} (now : Timestamp) (version : Option UInt32)
    (checked : ∀ action ∈ actions, ∀ block ∈ action.queued, setup.work.accepts block)
    (runs : (Processor.new setup.settings (started setup.constants now .empty version)).run setup
      actions = final)
    (ends : final.worker = .crashed (.insufficientWork hash) ∨ ∃ call,
      final.direct = some call ∧
        (final.advanceDirect setup call).1 = some (.error (.insufficientWork hash))) :
    HandedInUnchecked setup.work hash actions := by
  let submissions := Submissions.ofActions actions
  have handed (action : Action) (done : action ∈ actions) (block : Block)
      (isHanded : block ∈ action.blocks) : block ∈ submissions.blocks :=
    Submissions.mem_ofActions.mpr ⟨action, done, isHanded⟩
  have upheld := Charter.upheld_lenient setup submissions
  have admits := Charter.admits_lenient_started submissions setup.constants now version
  obtain ⟨obeys, blames⟩ : final.Obeys (.lenient submissions) ∧
      final.worker.Blames setup.work submissions := by
    subst runs
    refine run_induction (motive := fun processor => processor.Obeys (.lenient submissions) ∧
      processor.worker.Blames setup.work submissions) ?_
      ⟨obeys_new admits setup.settings, fun hash ended => nomatch ended⟩
    rintro before after action done ⟨obeys, blames⟩ moves
    refine ⟨obeys.moves upheld (handed action done) (fun block forces => ?_) moves,
      moves.blames obeys blames⟩
    exact handed action done block (forces ▸ List.mem_cons_self)
  have weak : submissions.Weak setup.work hash := by
    rcases ends with crashed | ⟨call, isCall, ended⟩
    · exact blames hash crashed
    · exact weak_of_advanceDirect (obeys.direct call isCall) ended
  obtain ⟨block, isHanded, isHash, tooWeak⟩ := weak
  obtain ⟨action, done, isBlock⟩ := Submissions.mem_ofActions.mp isHanded
  refine ⟨block, isHash, tooWeak, ?_⟩
  rcases action.mem_blocks isBlock with queued | rfl | ⟨now, rfl⟩
  · simp [checked action done block queued] at tooWeak
  · exact .inl done
  · exact .inr ⟨now, done⟩

section Development

open LedgerConstants

/-- An intake for the development network that asks for more work than blocks have. -/
def devStrict : IntakeSetup := ⟨.standard, .dev, ⟨.ofNat (UInt64.size - 1)⟩⟩

/-- A block without work that comes after the transfer. -/
def devIdle : Block where
  content := .send { previous := devTransfer.hash, destination := ⟨7⟩, balance := .zero }
  signature := .zero
  work := 0

/-- The idle block is taken straight in and parked, and then the block that it waits for. -/
def devCarelessness : List Action :=
  [.beginDirect devIdle .zero, .advanceDirect, .beginDirect devTransfer .zero]

private theorem devCarelessness_evaluated :
    (devFresh.run devStrict devCarelessness).direct.map
        (fun call => ((devFresh.run devStrict devCarelessness).advanceDirect devStrict call).1)
      = some (some (.error (.insufficientWork devIdle.hash))) := by
  decide +kernel

theorem devIdle_handed_in_unchecked :
    HandedInUnchecked devStrict.work devIdle.hash devCarelessness := by
  obtain ⟨call, isCall, ends⟩ := Option.map_eq_some_iff.mp devCarelessness_evaluated
  exact weak_handed_in_unchecked .zero none (by simp [devCarelessness, Action.queued]) rfl
    (.inr ⟨call, isCall, ends⟩)

/-- No block was queued without enough work, and yet a call ends over the work of a block. -/
theorem devCarelessness_ends : ¬ ∀ (actions : List Action) (hash : BlockHash)
    (call : DirectCall Tables),
    (∀ action ∈ actions, ∀ block ∈ action.queued, devStrict.work.accepts block) →
      (devFresh.run devStrict actions).direct = some call →
      ((devFresh.run devStrict actions).advanceDirect devStrict call).1
        ≠ some (.error (.insufficientWork hash)) := by
  intro neverEnds
  obtain ⟨call, isCall, ends⟩ := Option.map_eq_some_iff.mp devCarelessness_evaluated
  exact neverEnds devCarelessness devIdle.hash call (by simp [devCarelessness, Action.queued])
    isCall ends

end Development

end Processor

end AccountChains
