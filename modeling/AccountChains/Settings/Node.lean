import AccountChains.Intake.Settings
import AccountChains.Settings.Document
import AccountChains.Settings.Render
import AccountChains.Work.Basic

/-!
Contract: the settings of a node, read from a text and written to one.

Every setting has a standard value, which holds where the text is silent. Keys that
name no setting are ignored. The settings of a section may be given as a list, in
their order. A value of another type than its setting refuses the whole text.

Owns: `NodeSettings.read?` and `NodeSettings.write`. Does not own: what a settings
text is, or the limits of the intake.
-/

namespace AccountChains

inductive LogFormat where
  | human
  | json
deriving DecidableEq, Repr

structure NodeSettings where
  network : Network
  dataDir : String
  logFormat : LogFormat
  logLevel : String
  enableMetrics : Bool
  /-- The greatest size of the store on disk, in bytes. -/
  mapSize : UInt64
  intake : IntakeSettings
deriving DecidableEq, Repr

def Network.name : Network → String
  | .live => "live"
  | .beta => "beta"
  | .dev => "dev"

def Network.ofName? (name : String) : Option Network :=
  [Network.live, .beta, .dev].find? fun network => network.name == name

def LogFormat.name : LogFormat → String
  | .human => "human"
  | .json => "json"

def LogFormat.ofName? (name : String) : Option LogFormat :=
  [LogFormat.human, .json].find? fun format => format.name == name

namespace ConfigValue

def text? : ConfigValue → Option String
  | .text value => some value
  | _ => none

def truth? : ConfigValue → Option Bool
  | .truth value => some value
  | _ => none

/-- A whole number that is not negative. -/
def number? : ConfigValue → Option UInt64
  | .integer value => if 0 ≤ value then some (.ofNat value.toNat) else none
  | _ => none

/-- Whether a value has parts, but none. -/
def isHollow : ConfigValue → Bool
  | .list items | .tables items => items.isEmpty
  | .table _ entries => entries.isEmpty
  | _ => false

/-- One of several names: a text, or a table with a single key that has no content. -/
def choice? {α : Type} (ofName? : String → Option α) : ConfigValue → Option α
  | .text name => ofName? name
  | .table _ [(name, content)] => if content.isHollow then ofName? name else none
  | _ => none

/-- The value of a field: by its name in a table, by its place in a list. -/
def part? (source : ConfigValue) (place : Nat) (name : String) : Option ConfigValue :=
  match source with
  | .table _ entries => ConfigEntries.find? name entries
  | .list items | .tables items => items[place]?
  | _ => none

/-- Whether a value can stand for a section. A point in time can: it is a section that says
nothing. -/
def isSection : ConfigValue → Bool
  | .table .. | .list _ | .tables _ | .pointInTime => true
  | _ => false

/-- A field of a section, or its standard value if the section is silent. -/
def field? {α : Type} (read? : ConfigValue → Option α) (standard : α) (source : ConfigValue)
    (place : Nat) (name : String) : Option α :=
  match source.part? place name with
  | none => some standard
  | some value => read? value

end ConfigValue

/-- The settings of the intake in their section. -/
def IntakeSettings.read? (source : ConfigValue) : Option IntakeSettings := do
  if !source.isSection then none
  let standard := IntakeSettings.standard
  let number := fun standard => source.field? ConfigValue.number? standard
  let truth := fun standard => source.field? ConfigValue.truth? standard
  return {
    batchMaxTimeMs := ← number standard.batchMaxTimeMs 0 "batch_max_time_ms"
    bootstrapBatchMaxTimeMs :=
      ← number standard.bootstrapBatchMaxTimeMs 1 "bootstrap_batch_max_time_ms"
    batchSize := ← number standard.batchSize 2 "batch_size"
    fullSize := ← number standard.fullSize 3 "full_size"
    bootstrapFullSize := ← number standard.bootstrapFullSize 4 "bootstrap_full_size"
    verificationBatch := ← number standard.verificationBatch 5 "verification_batch"
    bootstrapVerificationBatch :=
      ← number standard.bootstrapVerificationBatch 6 "bootstrap_verification_batch"
    rolledBackMax := ← number standard.rolledBackMax 7 "rolled_back_max"
    forkGraceSecs := ← number standard.forkGraceSecs 8 "fork_grace_secs"
    liveWindowSecs := ← number standard.liveWindowSecs 9 "live_window_secs"
    fastBootstrap := ← truth standard.fastBootstrap 10 "fast_bootstrap"
    signatureCheckerThreads :=
      ← number standard.signatureCheckerThreads 11 "signature_checker_threads"
    uncheckedDeletion := ← truth standard.uncheckedDeletion 12 "unchecked_deletion" }

/-- The settings of the intake by their keys, in order. -/
def IntakeSettings.entries (settings : IntakeSettings) : List (String × WrittenValue) :=
  [("batch_max_time_ms", .number settings.batchMaxTimeMs),
    ("bootstrap_batch_max_time_ms", .number settings.bootstrapBatchMaxTimeMs),
    ("batch_size", .number settings.batchSize),
    ("full_size", .number settings.fullSize),
    ("bootstrap_full_size", .number settings.bootstrapFullSize),
    ("verification_batch", .number settings.verificationBatch),
    ("bootstrap_verification_batch", .number settings.bootstrapVerificationBatch),
    ("rolled_back_max", .number settings.rolledBackMax),
    ("fork_grace_secs", .number settings.forkGraceSecs),
    ("live_window_secs", .number settings.liveWindowSecs),
    ("fast_bootstrap", .truth settings.fastBootstrap),
    ("signature_checker_threads", .number settings.signatureCheckerThreads),
    ("unchecked_deletion", .truth settings.uncheckedDeletion)]

namespace NodeSettings

def standard : NodeSettings where
  network := .dev
  dataDir := "./lattice_data"
  logFormat := .human
  logLevel := "info"
  enableMetrics := false
  mapSize := 137438953472
  intake := .standard

/-- The work that a block needs on the node's network. -/
def threshold (settings : NodeSettings) : WorkThreshold := .ofNetwork settings.network

/-- The size of the store in its section. -/
def readMapSize? (source : ConfigValue) : Option UInt64 :=
  if source.isSection then source.field? ConfigValue.number? standard.mapSize 0 "map_size"
  else none

/-- The settings that a text describes; none if the text is refused. -/
def read? (text : String) : Option NodeSettings := do
  let document ← Document.read? text
  return {
    network := ← document.field? (ConfigValue.choice? Network.ofName?) standard.network 0 "network"
    dataDir := ← document.field? ConfigValue.text? standard.dataDir 1 "data_dir"
    logFormat :=
      ← document.field? (ConfigValue.choice? LogFormat.ofName?) standard.logFormat 2 "log_format"
    logLevel := ← document.field? ConfigValue.text? standard.logLevel 3 "log_level"
    enableMetrics := ← document.field? ConfigValue.truth? standard.enableMetrics 4 "enable_metrics"
    mapSize := ← document.field? readMapSize? standard.mapSize 5 "lmdb"
    intake := ← document.field? IntakeSettings.read? standard.intake 6 "block_processor" }

/-- Lines that give values to keys. -/
def assignments (entries : List (String × WrittenValue)) : Except WriteError String := do
  let lines ← entries.mapM fun entry => do
    let value ← (Render.value entry.2).mapError .overflow
    return entry.1 ++ " = " ++ value ++ "\n"
  return String.join lines

/-- The text that describes the settings. All numbers are looked at before any text is. -/
def write (settings : NodeSettings) : Except WriteError String := do
  let general := [
    ("network", .text settings.network.name),
    ("data_dir", .text settings.dataDir),
    ("log_format", .text settings.logFormat.name),
    ("log_level", .text settings.logLevel),
    ("enable_metrics", .truth settings.enableMetrics)]
  let store := [("map_size", .number settings.mapSize)]
  let intake := settings.intake.entries
  (general ++ store ++ intake).forM fun entry => Render.check entry.2
  return (← assignments general) ++ "\n[lmdb]\n" ++ (← assignments store)
    ++ "\n[block_processor]\n" ++ (← assignments intake)

end NodeSettings

end AccountChains
