import AccountChains.Decimal
import AccountChains.Ledger.Verdict
import AccountChains.Table

/-!
Contract: what the intake counts, and the text in which it is exported.

A counter starts at zero and has 64 bits, after which it starts again. A family
has one member for each label that has been used so far, and is not shown before
the first. A histogram counts, for each of its bounds, the observations that do not
exceed it; bounds, observations and their sum are binary64 numbers. In the text every
number is a binary64 number: a count that has no exact one is rounded.

Owns: `Metrics`, its updates, and `Metrics.text`. Does not own: the decimal text of
a number.
-/

namespace AccountChains

structure Histogram where
  /-- Each bound with the count of observations that do not exceed it. -/
  buckets : List (Float × UInt64)
  total : Float
  samples : UInt64
deriving Repr

namespace Histogram

/-- Bounds that start with `first` and grow by `factor`, before anything has been observed. -/
def bounds (first factor : Float) : (count : Nat) → List (Float × UInt64)
  | 0 => []
  | count + 1 => (first, 0) :: bounds (first * factor) factor count

/-- A histogram whose `count` bounds start with `first` and grow by `factor`. -/
def exponential (first factor : Float) (count : Nat) : Histogram :=
  ⟨bounds first factor count, 0, 0⟩

def observe (value : Float) (histogram : Histogram) : Histogram where
  buckets := histogram.buckets.map fun bucket =>
    if value ≤ bucket.1 then (bucket.1, bucket.2 + 1) else bucket
  total := histogram.total + value
  samples := histogram.samples + 1

end Histogram

/-- What is only ever counted up. -/
inductive Counter where
  /-- Forced blocks that replaced another one. -/
  | rollbacks
  /-- Blocks that were undone for a forced one. -/
  | rolledBackBlocks
  /-- Blocks that were parked. -/
  | uncheckedAdded
  /-- Parked blocks that were queued again. -/
  | uncheckedRetried
  /-- Blocks that were dropped after verification. -/
  | badSignatures
  /-- Blocks that were turned away. -/
  | duplicates
  /-- Blocks that were skipped because the ledger or the store failed. -/
  | failures
deriving DecidableEq, Repr

namespace Counter

def all : List Counter :=
  [.rollbacks, .rolledBackBlocks, .uncheckedAdded, .uncheckedRetried, .badSignatures,
    .duplicates, .failures]

def name : Counter → String
  | .rollbacks => "rollbacks"
  | .rolledBackBlocks => "rolled_back_blocks"
  | .uncheckedAdded => "unchecked_added"
  | .uncheckedRetried => "unchecked_retried"
  | .badSignatures => "bad_signatures"
  | .duplicates => "duplicates"
  | .failures => "failures"

def ofName? (name : String) : Option Counter := all.find? fun counter => counter.name == name

end Counter

structure Metrics where
  /-- How often the ledger gave each verdict, by the name of the verdict. -/
  processed : Table String UInt64
  rollbacks : UInt64
  rolledBackBlocks : UInt64
  uncheckedAdded : UInt64
  uncheckedRetried : UInt64
  badSignatures : UInt64
  duplicates : UInt64
  failures : UInt64
  /-- The length of each queue at the end of the last batch, by the name of the queue. -/
  queueDepth : Table String Int64
  /-- How long batches took, in milliseconds. -/
  batchTime : Histogram
  /-- How many blocks were verified together. -/
  verificationBatch : Histogram

namespace Metrics

def zero : Metrics where
  processed := .empty
  rollbacks := 0
  rolledBackBlocks := 0
  uncheckedAdded := 0
  uncheckedRetried := 0
  badSignatures := 0
  duplicates := 0
  failures := 0
  queueDepth := .empty
  batchTime := .exponential 0.1 2 15
  verificationBatch := .exponential 1 4 10

def count (metrics : Metrics) : Counter → UInt64
  | .rollbacks => metrics.rollbacks
  | .rolledBackBlocks => metrics.rolledBackBlocks
  | .uncheckedAdded => metrics.uncheckedAdded
  | .uncheckedRetried => metrics.uncheckedRetried
  | .badSignatures => metrics.badSignatures
  | .duplicates => metrics.duplicates
  | .failures => metrics.failures

def add (counter : Counter) (amount : UInt64) (metrics : Metrics) : Metrics :=
  match counter with
  | .rollbacks => { metrics with rollbacks := metrics.rollbacks + amount }
  | .rolledBackBlocks => { metrics with rolledBackBlocks := metrics.rolledBackBlocks + amount }
  | .uncheckedAdded => { metrics with uncheckedAdded := metrics.uncheckedAdded + amount }
  | .uncheckedRetried => { metrics with uncheckedRetried := metrics.uncheckedRetried + amount }
  | .badSignatures => { metrics with badSignatures := metrics.badSignatures + amount }
  | .duplicates => { metrics with duplicates := metrics.duplicates + amount }
  | .failures => { metrics with failures := metrics.failures + amount }

def verdictCount (metrics : Metrics) (verdict : Verdict) : UInt64 :=
  (metrics.processed.get? verdict.name).getD 0

def recordVerdict (verdict : Verdict) (metrics : Metrics) : Metrics :=
  { metrics with
    processed := metrics.processed.insert verdict.name (metrics.verdictCount verdict + 1) }

/-- Note how long the queues are, in 64 bits with sign. -/
def recordDepths (ready unverified forced : Nat) (metrics : Metrics) : Metrics :=
  { metrics with
    queueDepth := ((metrics.queueDepth.insert "pending" (.ofNat ready)).insert
      "pending_state" (.ofNat unverified)).insert "forced" (.ofNat forced) }

def depth (metrics : Metrics) (queue : String) : Int64 := (metrics.queueDepth.get? queue).getD 0

/-- Count a batch that took so many milliseconds. -/
def recordBatch (milliseconds : Float) (metrics : Metrics) : Metrics :=
  { metrics with batchTime := metrics.batchTime.observe milliseconds }

/-- Count a verification of so many blocks. -/
def recordVerification (blocks : Nat) (metrics : Metrics) : Metrics :=
  { metrics with verificationBatch := metrics.verificationBatch.observe (.ofNat blocks) }

/-! ## Text -/

def countText (count : UInt64) : String := Decimal.textOf (.ofNat count.toNat)

def depthText (depth : Int64) : String := Decimal.textOf (.ofInt depth.toInt)

/-- A line with the value of a metric, with a label if it has one. -/
def line (name label value : String) : String :=
  name ++ (if label.isEmpty then "" else "\x7b" ++ label ++ "\x7d") ++ " " ++ value ++ "\n"

/-- A label with its value. -/
def labelled (label value : String) : String := label ++ "=\"" ++ value ++ "\""

/-- The lines of a metric after its two lines of description. -/
def described (name description kind body : String) : String :=
  "# HELP " ++ name ++ " " ++ description ++ "\n# TYPE " ++ name ++ " " ++ kind ++ "\n" ++ body

def counterText (name description : String) (count : UInt64) : String :=
  described name description "counter" (line name "" (countText count))

/-- The text of a family, empty if no label has been used. -/
def familyText (name description kind label : String) (members : List (String × String)) :
    String :=
  if members.isEmpty then ""
  else described name description kind
    (String.join (members.map fun member => line name (labelled label member.1) member.2))

def histogramText (name description : String) (histogram : Histogram) : String :=
  described name description "histogram" (
    String.join (histogram.buckets.map fun bucket =>
      line (name ++ "_bucket") (labelled "le" (Decimal.textOf bucket.1)) (countText bucket.2))
    ++ line (name ++ "_bucket") (labelled "le" "+Inf") (countText histogram.samples)
    ++ line (name ++ "_sum") "" (Decimal.textOf histogram.total)
    ++ line (name ++ "_count") "" (countText histogram.samples))

/-- The exported text: all metrics by name, with the labels of a family in order. -/
def text (metrics : Metrics) : String :=
  String.join [
    counterText "lattice_bad_signatures_total"
      "State blocks dropped after batch signature verification" metrics.badSignatures,
    counterText "lattice_block_failures_total"
      "Blocks skipped after a ledger or store failure" metrics.failures,
    histogramText "lattice_block_processor_batch_ms"
      "Commit batch duration in milliseconds" metrics.batchTime,
    familyText "lattice_block_processor_queue"
      "Blocks waiting per queue" "gauge" "queue"
      (metrics.queueDepth.entries.map fun entry => (entry.1, depthText entry.2)),
    familyText "lattice_blocks_processed_total"
      "Ledger verdicts by result code" "counter" "result"
      (metrics.processed.entries.map fun entry => (entry.1, countText entry.2)),
    counterText "lattice_duplicate_blocks_total"
      "Ignored duplicate submissions" metrics.duplicates,
    counterText "lattice_forced_rollbacks_total"
      "Forced fork replacements" metrics.rollbacks,
    counterText "lattice_rolled_back_blocks_total"
      "Blocks undone by forced rollbacks" metrics.rolledBackBlocks,
    counterText "lattice_unchecked_added_total"
      "Blocks parked waiting for a dependency" metrics.uncheckedAdded,
    counterText "lattice_unchecked_retried_total"
      "Parked blocks re-queued after their dependency arrived" metrics.uncheckedRetried,
    histogramText "lattice_verification_batch_size"
      "State blocks per signature verification batch" metrics.verificationBatch]

end Metrics

end AccountChains
