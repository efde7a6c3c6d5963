/-!
Contract: the limits and windows of the intake.

While a ledger is being filled fast, the bootstrap variants of the limits hold.

Owns: `IntakeSettings`, its standard values, and which variant of a limit holds.
Does not own: how settings are read from text.
-/

namespace AccountChains

structure IntakeSettings where
  /-- How long a batch may take before it is committed, in milliseconds. -/
  batchMaxTimeMs : UInt64
  /-- The same while filling a ledger; zero sets no limit. -/
  bootstrapBatchMaxTimeMs : UInt64
  /-- How many blocks a batch takes even if its time is over. -/
  batchSize : UInt64
  /-- The number of waiting blocks at which the intake calls itself full. -/
  fullSize : UInt64
  bootstrapFullSize : UInt64
  /-- How many blocks are verified together. -/
  verificationBatch : UInt64
  bootstrapVerificationBatch : UInt64
  /-- How many replaced blocks are remembered. -/
  rolledBackMax : UInt64
  /-- A fork that arrived less than this many seconds ago is not reported. -/
  forkGraceSecs : UInt64
  /-- A block that arrived less than this many seconds ago is reported as live. -/
  liveWindowSecs : UInt64
  /-- Whether a ledger is being filled: the bootstrap limits hold, and an old block does not
  queue again what waits for it. -/
  fastBootstrap : Bool
  signatureCheckerThreads : UInt64
  /-- Whether a parked block is removed when it is queued again. -/
  uncheckedDeletion : Bool
deriving DecidableEq, Repr

namespace IntakeSettings

def standard : IntakeSettings where
  batchMaxTimeMs := 500
  bootstrapBatchMaxTimeMs := 0
  batchSize := 0
  fullSize := 65536
  bootstrapFullSize := 1048576
  verificationBatch := 2048
  bootstrapVerificationBatch := 16384
  rolledBackMax := 1024
  forkGraceSecs := 15
  liveWindowSecs := 300
  fastBootstrap := false
  signatureCheckerThreads := 1
  uncheckedDeletion := true

/-- How long a batch may take, in milliseconds, if there is a limit. Only while filling a
ledger does zero mean that there is none. -/
def timeLimit? (settings : IntakeSettings) : Option UInt64 :=
  if !settings.fastBootstrap then some settings.batchMaxTimeMs
  else if settings.bootstrapBatchMaxTimeMs == 0 then none
  else some settings.bootstrapBatchMaxTimeMs

def maxSize (settings : IntakeSettings) : UInt64 :=
  if settings.fastBootstrap then settings.bootstrapFullSize else settings.fullSize

def maxVerificationBatch (settings : IntakeSettings) : UInt64 :=
  if settings.fastBootstrap then settings.bootstrapVerificationBatch
  else settings.verificationBatch

/-- Whether a batch that has run for `elapsed` nanoseconds still has time. -/
def hasTime (settings : IntakeSettings) (elapsed : Nat) : Bool :=
  match settings.timeLimit? with
  | none => true
  | some limit => elapsed < limit.toNat * 1000000

end IntakeSettings

end AccountChains
