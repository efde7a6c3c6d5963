import AccountChains.Intake.Processor

/-!
Contract: in which order the threads of an intake take their steps.

Any order is possible: a run is a list of actions, each of one thread, and an
action that its thread cannot take at that moment changes nothing. One order is
that of a single caller who waits for the worker after every call; it is what
`settle` and `takeDirect` do.

Owns: `Action`, `Processor.run`, and the sequential order. Does not own: the steps.
-/

namespace AccountChains

/-- What one thread does in one go. -/
inductive Action where
  | add (block : Block) (arrival : Timestamp)
  | addKnown (known : ParkedBlock) (now : Timestamp)
  | force (block : Block)
  | start
  | stop
  | join
  | advance (moment : Moment)
  | beginDirect (block : Block) (now : Timestamp)
  | advanceDirect
deriving DecidableEq

namespace Processor

variable {σ : Type} [Store σ]

/-- Do one action. A producer that crashes leaves the intake as it was. -/
def act (setup : IntakeSetup) (processor : Processor σ) : Action → Processor σ
  | .add block arrival => (processor.add setup block arrival).toOption.getD processor
  | .addKnown known now => (processor.addKnown setup known now).toOption.getD processor
  | .force block => processor.force block
  | .start => processor.start.toOption.getD processor
  | .stop => processor.stop
  | .join => processor.join
  | .advance moment => (processor.advance setup moment).getD processor
  | .beginDirect block now =>
    match processor.beginDirect setup now block with
    | some (_, processor) => processor
    | none => processor
  | .advanceDirect =>
    match processor.direct with
    | some call => (processor.advanceDirect setup call).2
    | none => processor

def run (setup : IntakeSetup) (processor : Processor σ) (actions : List Action) : Processor σ :=
  actions.foldl (act setup) processor

/-- Let the worker go on until it waits, for at most `steps` steps. -/
def settle (setup : IntakeSetup) (moment : Moment) : (steps : Nat) → Processor σ → Processor σ
  | 0, processor => processor
  | steps + 1, processor =>
    match processor.advance setup moment with
    | some next => settle setup moment steps next
    | none => processor

/-- Stop the worker and wait until it has ended, for at most `steps` steps. -/
def shutDown (setup : IntakeSetup) (moment : Moment) (steps : Nat) (processor : Processor σ) :
    Processor σ :=
  (processor.stop.settle setup moment steps).join

/-- Finish a direct call, in at most `steps` steps. -/
def finishDirect (setup : IntakeSetup) : (steps : Nat) → Processor σ →
    Option (Except Failure Receipt × Processor σ)
  | 0, _ => none
  | steps + 1, processor =>
    match processor.direct with
    | none => none
    | some call =>
      match processor.advanceDirect setup call with
      | (none, next) => finishDirect setup steps next
      | (some answer, next) => some (answer.mapError Failure.crash, next)

/-- The steps that a direct call needs: one for each block that is queued again, one to report
them, and one to commit. -/
def directSteps (processor : Processor σ) : Nat :=
  match processor.direct.bind DirectCall.requeue with
  | some requeue => requeue.rest.length + 2
  | none => 2

/-- Take a block straight into the ledger while no other thread does anything; none if someone
holds the write transaction. -/
def takeDirect (setup : IntakeSetup) (now : Timestamp) (block : Block) (processor : Processor σ) :
    Option (Except Failure Receipt × Processor σ) :=
  match processor.beginDirect setup now block with
  | none => none
  | some (.error failure, next) => some (.error failure, next)
  | some (.ok (), next) => next.finishDirect setup next.directSteps

end Processor

end AccountChains
