import Mathlib.Order.WellFounded
import AccountChains.Proofs.Intake.Unhindered

/-!
Contract: an intake that is left alone comes to rest.

Every step of the worker leaves less to do, and nothing adds to it. So there is a state
after which no step follows, and the worker then waits with empty queues. A batch that is
open is committed before that.

Owns: the runs of a worker that is left alone, and that they come to an end. Does not own:
what becomes of the blocks.
-/

namespace AccountChains

open Ledger Tables

namespace Processor

variable {setup : IntakeSetup} {processor next : Processor Tables} {batch : Batch Tables}

/-- The worker alone has taken a number of steps, each at its moment; at rest it stays as it is. -/
def after (setup : IntakeSetup) (moments : Nat → Moment) (processor : Processor Tables)
    (count : Nat) : Processor Tables :=
  processor.run setup ((List.range count).map fun index => .advance (moments index))

section Running

variable {moments : Nat → Moment} {count : Nat}

theorem after_succ : processor.after setup moments (count + 1)
    = ((processor.after setup moments count).advance setup (moments count)).getD
      (processor.after setup moments count) := by
  simp only [after, run, List.range_succ, List.map_append, List.foldl_append]
  rfl

/-- If the worker waits, there are no blocks. -/
theorem Unhindered.quiet (unhindered : processor.Unhindered setup) {moment : Moment}
    (waits : processor.advance setup moment = none) :
    processor.worker = .idle ∧ processor.Quiet := by
  have working := unhindered.working
  unfold advance at waits
  cases worker : processor.worker with
  | absent | finished | crashed => exact absurd working (by rw [worker]; exact id)
  | idle =>
      simp only [worker, unhindered.running, Bool.false_eq_true, if_false] at waits
      split at waits
      · cases waits
      · next none =>
          simp only [Queues.hasBlocks, Bool.or_eq_true, Bool.not_eq_true', not_or,
            Bool.not_eq_false, List.isEmpty_iff] at none
          obtain ⟨⟨ready, unverified⟩, forced⟩ := none
          exact ⟨rfl, .inr worker, ready, unverified, forced⟩
  | opening => simp [worker, unhindered.alone] at waits
  | requeueing batch item requeue =>
      simp only [worker] at waits
      split at waits <;> cases waits
  | woken =>
      simp only [worker] at waits
      split at waits <;> cases waits
  | _ => simp [worker] at waits

/-- The worker goes on unhindered, with no more blocks than there were, or has ended since the
ledger is full. -/
theorem after_unhindered (sound : setup.constants.Sound)
    (deletes : setup.settings.uncheckedDeletion) (unhindered : processor.Unhindered setup)
    (coherent : processor.view.Coherent setup.constants) (moments : Nat → Moment) (count : Nat) :
    let next := processor.after setup moments count
    next.worker = .crashed (.overflow .addition) ∧ UInt64.size ≤ processor.census ∨
      next.Unhindered setup ∧ next.view.Coherent setup.constants ∧
        next.census ≤ processor.census := by
  induction count with
  | zero => exact .inr ⟨unhindered, coherent, le_rfl⟩
  | succ count inductionHypothesis =>
      dsimp only
      rw [after_succ]
      cases steps : (processor.after setup moments count).advance setup (moments count) with
      | none => exact inductionHypothesis
      | some next =>
          rcases inductionHypothesis with ⟨ended, -⟩ | ⟨unhindered, coherent, bounded⟩
          · simp [advance, ended] at steps
          · have strides := strides_advance steps
            rcases strides.working_or_full sound deletes unhindered coherent with
              working | ⟨ended, isFull⟩
            · have relieved := strides.relieved sound deletes unhindered coherent working
              exact .inr ⟨strides.unhindered_next sound deletes unhindered coherent working,
                relieved.coherent, relieved.census.trans bounded⟩
            · exact .inl ⟨ended, isFull.trans bounded⟩

/-- Where the worker cannot take a step, it stays. -/
theorem after_of_waits (waits : ∀ moment,
      (processor.after setup moments count).advance setup moment = none) {later : Nat}
    (isLater : count ≤ later) :
    processor.after setup moments later = processor.after setup moments count := by
  induction later, isLater using Nat.le_induction with
  | base => rfl
  | succ later isLater inductionHypothesis =>
      rw [after_succ, inductionHypothesis, waits]
      rfl

/-- An idle worker without blocks waits, and so does one that has ended. -/
theorem waits_of_ended (ended : processor.worker = .idle ∧ processor.Quiet ∧
      processor.queues.stopped = false ∨ ∃ cause, processor.worker = .crashed cause)
    (moment : Moment) : processor.advance setup moment = none := by
  rcases ended with ⟨idle, quiet, running⟩ | ⟨cause, crashed⟩
  · simp [advance, idle, running, Queues.hasBlocks, quiet.ready, quiet.unverified, quiet.forced]
  · simp [advance, crashed]

/-- A batch stays open until it is committed, unless the worker ends. -/
theorem Strides.batch_open {moment : Moment} (strides : Strides setup moment processor next)
    (isOpen : processor.worker.batch? = some batch) (working : next.worker.IsWorking) :
    (∃ after, next.worker.batch? = some after) ∨ ∃ ended, processor.worker = .committing ended := by
  cases strides with
  | finishes isPlace | wakes isPlace | skips isPlace | drainsAhead isPlace | returnsAhead isPlace
  | opens isPlace | emits isPlace | closes isPlace =>
      rw [isPlace] at isOpen
      cases isOpen
  | drains | takes | ends | returns | requeues | requeued => exact .inl ⟨_, rfl⟩
  | @handles batch taken handling =>
      obtain ⟨rolledBack, worker, metrics, isHandled, places⟩ :=
        exists_handled setup processor moment.now batch taken
      rw [isHandled] at working ⊢
      rcases places with ⟨cause, rfl⟩ | ⟨batch, rfl⟩ | ⟨batch, item, requeue, rfl⟩
      · exact working.elim
      · exact .inl ⟨_, rfl⟩
      · exact .inl ⟨_, rfl⟩
  | requeuesWeak => exact working.elim
  | commits committing => exact .inr ⟨_, committing⟩

section Alone

variable (sound : setup.constants.Sound) (deletes : setup.settings.uncheckedDeletion)
  (unhindered : processor.Unhindered setup) (coherent : processor.view.Coherent setup.constants)

include sound deletes unhindered coherent

/-- The load cannot become less for ever, so there is a moment after which no step follows. -/
theorem exists_ended (moments : Nat → Moment) : ∃ count,
    let final := processor.after setup moments count
    final.worker = .idle ∧ final.Quiet ∧ final.queues.stopped = false ∨
      final.worker = .crashed (.overflow .addition) ∧ UInt64.size ≤ processor.census := by
  have always := after_unhindered sound deletes unhindered coherent moments
  obtain ⟨least, ⟨count, rfl⟩, isLeast⟩ := Load.wellFounded_lighter.has_min
    (Set.range fun count => (processor.after setup moments count).load) ⟨_, 0, rfl⟩
  rcases always count with ended | ⟨goesOn, stillCoherent, bounded⟩
  · exact ⟨count, .inr ended⟩
  cases steps : (processor.after setup moments count).advance setup (moments count) with
  | none =>
      obtain ⟨idle, quiet⟩ := goesOn.quiet steps
      exact ⟨count, .inl ⟨idle, quiet, goesOn.running⟩⟩
  | some next =>
      have isNext : processor.after setup moments (count + 1) = next := by
        rw [after_succ, steps]
        rfl
      have strides := strides_advance steps
      rcases strides.working_or_full sound deletes goesOn stillCoherent with
        working | ⟨ended, isFull⟩
      · have relieved := strides.relieved sound deletes goesOn stillCoherent working
        exact absurd relieved.lighter (isLeast _ ⟨count + 1, congrArg load isNext⟩)
      · exact ⟨count + 1, .inr ⟨isNext ▸ ended, isFull.trans bounded⟩⟩

/-- A batch that is over has been committed, unless the worker has ended. -/
theorem exists_committing (moments : Nat → Moment) {earlier later : Nat}
    (isLater : earlier ≤ later)
    (isOpen : (processor.after setup moments earlier).worker.batch? = some batch)
    (isClosed : (processor.after setup moments later).worker.batch? = none) :
    ∃ between, earlier ≤ between ∧ between ≤ later ∧
      ((∃ ended, (processor.after setup moments between).worker = .committing ended) ∨
        (processor.after setup moments between).worker = .crashed (.overflow .addition)) := by
  induction later, isLater using Nat.le_induction with
  | base => exact nomatch isOpen.symm.trans isClosed
  | succ later isLater inductionHypothesis =>
      cases stillOpen : (processor.after setup moments later).worker.batch? with
      | none =>
          obtain ⟨between, notBefore, notAfter, reached⟩ := inductionHypothesis stillOpen
          exact ⟨between, notBefore, notAfter.trans (Nat.le_succ _), reached⟩
      | some current =>
          rcases after_unhindered sound deletes unhindered coherent moments (later + 1) with
            ⟨ended, -⟩ | ⟨goesOn, -, -⟩
          · exact ⟨later + 1, isLater.trans (Nat.le_succ _), le_rfl, .inr ended⟩
          have working := goesOn.working
          rw [after_succ] at isClosed working
          cases steps : (processor.after setup moments later).advance setup (moments later) with
          | none =>
              rw [steps] at isClosed
              exact nomatch stillOpen.symm.trans isClosed
          | some next =>
              rw [steps] at isClosed working
              rcases (strides_advance steps).batch_open stillOpen working with
                ⟨after, open_⟩ | committing
              · exact nomatch open_.symm.trans isClosed
              · exact ⟨later, isLater, Nat.le_succ _, .inl committing⟩

end Alone

/-- An intake that is left alone comes to rest with empty queues, after finitely many steps of its
worker, and stays so; and each batch that is begun is committed. The one thing that may come in
between is that the worker cannot count one more block of an account, which takes `2 ^ 64` blocks,
those that are queued or parked included. -/
theorem pipeline_drains (sound : setup.constants.Sound)
    (deletes : setup.settings.uncheckedDeletion)
    (reachable : Reachable setup.constants processor.view)
    (unhindered : processor.Unhindered setup) (moments : Nat → Moment) :
    let states := processor.after setup moments
    ∃ count,
      (∀ later, count ≤ later → states later = states count) ∧
      ((states count).worker = .idle ∧ (states count).Quiet ∨
        (states count).worker = .crashed (.overflow .addition) ∧
          UInt64.size ≤ processor.census) ∧
      ∀ earlier batch, (states earlier).worker.batch? = some batch →
        ∃ later, earlier ≤ later ∧ later ≤ count ∧
          ((∃ ended, (states later).worker = .committing ended) ∨
            (states later).worker = .crashed (.overflow .addition)) := by
  intro states
  have coherent := reachable.coherent sound
  obtain ⟨count, ended⟩ := exists_ended sound deletes unhindered coherent moments
  have stays (later : Nat) (isLater : count ≤ later) : states later = states count :=
    after_of_waits (waits_of_ended (ended.imp_right fun crashed => ⟨_, crashed.1⟩)) isLater
  have isClosed : (states count).worker.batch? = none := by
    rcases ended with ⟨idle, -⟩ | ⟨crashed, -⟩
    · exact congrArg Worker.batch? idle
    · exact congrArg Worker.batch? crashed
  refine ⟨count, stays, ended.imp_left fun ⟨idle, quiet, _⟩ => ⟨idle, quiet⟩,
    fun earlier batch isOpen => ?_⟩
  rcases Nat.le_total earlier count with isEarlier | isLater
  · exact exists_committing sound deletes unhindered coherent moments isEarlier isOpen isClosed
  · rw [stays earlier isLater] at isOpen
    exact nomatch isOpen.symm.trans isClosed

end Running

section Development

open LedgerConstants

/-- The return is parked under the transfer that it waits for. -/
def devBacklogStore : Tables :=
  started .dev .zero
    (Table.empty.insert ⟨devTransfer.hash, devReturn.hash⟩ ⟨devReturn, .zero, .zero, .unknown⟩) none

/-- The transfer is ready, a stray block has to be checked, and another one is forced. -/
def devBacklog : Processor Tables :=
  { Processor.new .standard devBacklogStore with
    worker := .idle
    copies := 3
    queues := { Queues.empty 1024 with
      ready := [.plain ⟨0, devTransfer⟩ .zero]
      unverified := [.plain ⟨1, devStray⟩ .zero]
      forced := [⟨2, devPromise⟩]
      hashes := (Table.empty.insert devTransfer.hash ()).insert devStray.hash () } }

private theorem devBacklog_evaluated :
    (∀ block ∈ [devTransfer, devStray, devPromise, devReturn],
      devSetup.work.accepts block ∧ block.hash ≠ .zero) ∧
    devPromise.qualifiedRoot ≠ dev.genesis.qualifiedRoot ∧
    devBacklog.census < UInt64.size := by
  decide +kernel

theorem devBacklog_unhindered : devBacklog.Unhindered devSetup := by
  obtain ⟨passes, spares, -⟩ := devBacklog_evaluated
  have pass (block : Block) (member : block ∈ [devTransfer, devStray, devPromise, devReturn]) :
      devSetup.Passes block := ⟨(passes block member).1, (passes block member).2⟩
  refine ⟨trivial, rfl, rfl, fun handle holds => pass _ ?_, fun handle member same => ?_,
    fun key waiting found => ?_, List.forall_mem_nil _⟩
  · have isHeld : handle ∈ [⟨0, devTransfer⟩, ⟨1, devStray⟩, (⟨2, devPromise⟩ : Handle)] := holds
    simp only [List.mem_cons, List.not_mem_nil, or_false] at isHeld ⊢
    rcases isHeld with rfl | rfl | rfl <;> simp
  · obtain rfl : handle = ⟨2, devPromise⟩ := List.mem_singleton.mp member
    exact absurd same spares
  · obtain ⟨-, rfl⟩ := Table.get?_single_iff.mp found
    exact pass _ (by simp)

/-- Everything is handled, checked or dropped, and the worker rests. -/
theorem devBacklog_drains : ∃ count,
    (devBacklog.after devSetup (fun _ => ⟨.zero, 0⟩) count).worker = .idle ∧
      (devBacklog.after devSetup (fun _ => ⟨.zero, 0⟩) count).Quiet := by
  obtain ⟨count, -, rests | full, -⟩ := pipeline_drains dev_sound rfl
    (.started .zero _ none : Reachable devSetup.constants devBacklog.view) devBacklog_unhindered
    fun _ => ⟨.zero, 0⟩
  · exact ⟨count, rests⟩
  · exact absurd devBacklog_evaluated.2.2 (Nat.not_lt.mpr full.2)

end Development

end Processor

end AccountChains
