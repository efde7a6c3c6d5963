import AccountChains.Proofs.Store.Layout
import AccountChains.Store.Database

/-!
Contract: the store of bytes and the store of values cannot be told apart.

A store of bytes is, after any commands, the bytes of what the store of values is after
the same commands; except that it has been given a version before them. So each read of
the one answers as it does on the other, whether it looks at the committed state, into
the open transaction or into a snapshot. All reads of the store of values succeed, so no
record that was ever written is unreadable.

Owns: the operations of a store as data (`Store.Update`, `Store.Query`), the commands of
a database (`Database.Command`), and the agreement of the two stores on all of them. Does
not own: how a single table is written.
-/

namespace AccountChains

variable {σ τ α : Type}

/-! ## Operations as data -/

namespace Store

/-- What may be written to a store. -/
inductive Update where
  | putAccount (account : Account) (record : AccountRecord)
  | removeAccount (account : Account)
  | putBlock (stored : StoredBlock)
  | removeBlock (hash : BlockHash)
  | putSuccessor (hash next : BlockHash)
  | removeSuccessor (hash : BlockHash)
  | putReceivable (key : ReceivableKey) (record : Receivable)
  | removeReceivable (key : ReceivableKey)
  | putFrontier (hash : BlockHash) (account : Account)
  | removeFrontier (hash : BlockHash)
  | putWeight (representative : Account) (weight : Amount)
  | putParked (key : ParkedKey) (record : ParkedBlock)
  | removeParked (key : ParkedKey)
  | putVersion (version : UInt32)

/-- What a store may be asked, with the type of the answer. -/
inductive Query : Type → Type where
  | account (account : Account) : Query (Except StoreError (Option AccountRecord))
  | hasAccount (account : Account) : Query (Except StoreError Bool)
  | accounts : Query (Except StoreError (List (Account × AccountRecord)))
  | block (hash : BlockHash) : Query (Except StoreError (Option StoredBlock))
  | hasBlock (hash : BlockHash) : Query Bool
  | successor (hash : BlockHash) : Query (Except StoreError (Option BlockHash))
  | receivable (key : ReceivableKey) : Query (Except StoreError (Option Receivable))
  | hasReceivable (key : ReceivableKey) : Query (Except StoreError Bool)
  | receivables (account : Account) : Query (Except StoreError (List (ReceivableKey × Receivable)))
  | hasAnyReceivable (account : Account) : Query (Except StoreError Bool)
  | frontier (hash : BlockHash) : Query (Except StoreError (Option Account))
  | weight (representative : Account) : Query (Except StoreError Amount)
  | weights : Query (Except StoreError (List (Account × Amount)))
  | parked (dependency : BlockHash) : Query (Except StoreError (List (ParkedKey × ParkedBlock)))
  | hasParked (key : ParkedKey) : Query Bool
  | version : Query (Except StoreError (Option UInt32))
  | counts : Query TableCounts

variable [Store σ]

def Update.apply : Update → σ → σ
  | .putAccount account record => Store.putAccount account record
  | .removeAccount account => Store.removeAccount account
  | .putBlock stored => Store.putBlock stored
  | .removeBlock hash => Store.removeBlock hash
  | .putSuccessor hash next => Store.putSuccessor hash next
  | .removeSuccessor hash => Store.removeSuccessor hash
  | .putReceivable key record => Store.putReceivable key record
  | .removeReceivable key => Store.removeReceivable key
  | .putFrontier hash account => Store.putFrontier hash account
  | .removeFrontier hash => Store.removeFrontier hash
  | .putWeight representative weight => Store.putWeight representative weight
  | .putParked key record => Store.putParked key record
  | .removeParked key => Store.removeParked key
  | .putVersion version => Store.putVersion version

def Query.ask : Query α → σ → α
  | .account owner => fun store => Store.account? store owner
  | .hasAccount owner => fun store => Store.hasAccount store owner
  | .accounts => Store.accounts
  | .block hash => fun store => Store.block? store hash
  | .hasBlock hash => fun store => Store.hasBlock store hash
  | .successor hash => fun store => Store.successor? store hash
  | .receivable key => fun store => Store.receivable? store key
  | .hasReceivable key => fun store => Store.hasReceivable store key
  | .receivables owner => fun store => Store.receivables store owner
  | .hasAnyReceivable owner => fun store => Store.hasAnyReceivable store owner
  | .frontier hash => fun store => Store.frontier? store hash
  | .weight representative => fun store => Store.weight store representative
  | .weights => Store.weights
  | .parked dependency => fun store => Store.parked store dependency
  | .hasParked key => fun store => Store.hasParked store key
  | .version => Store.version?
  | .counts => Store.counts

/-- The answer of a store that was given the current version before anything else. -/
def Query.stamped : Query α → α → α
  | .version, answer => answer.map fun version => some (version.getD Store.currentVersion)
  | _, answer => answer

end Store

/-! ## Commands of a database -/

namespace Database

/-- What may be done to a database. A write without an open transaction is one of its own. -/
inductive Command where
  | begin
  | write (update : Store.Update)
  | commit
  | abort
  | takeSnapshot
  | releaseSnapshot

/-- Where a read looks: at the committed state, into the open transaction, or into the snapshot. -/
inductive View where
  | committed
  | transaction
  | snapshot

/-- The state that a view shows, if what it looks into is there. -/
def View.state? (database : Database σ) : View → Option σ
  | .committed => some database.committed
  | .transaction => database.transaction
  | .snapshot => database.snapshot

variable [Store σ] [Store τ]

def Command.run (database : Database σ) : Command → Database σ
  | .begin => database.begin
  | .write update => (database.perform fun state =>
      ((.ok () : Except StoreError Unit), update.apply state)).2
  | .commit => database.commit
  | .abort => database.abort
  | .takeSnapshot => database.takeSnapshot
  | .releaseSnapshot => database.releaseSnapshot

/-- A database after commands. -/
def after (database : Database σ) (commands : List Command) : Database σ :=
  commands.foldl Command.run database

omit [Store σ] [Store τ] in
/-- The same database with each of its states replaced. -/
def map (replace : σ → τ) (database : Database σ) : Database τ where
  committed := replace database.committed
  transaction := database.transaction.map replace
  snapshot := database.snapshot.map replace

omit [Store σ] [Store τ] in
theorem state?_map (replace : σ → τ) (database : Database σ) (view : View) :
    view.state? (database.map replace) = (view.state? database).map replace := by
  cases view <;> rfl

section Replacement

variable {replace : σ → τ}
  (commutes : ∀ (update : Store.Update) (state : σ),
    update.apply (replace state) = replace (update.apply state))

include commutes

theorem run_map (command : Command) (database : Database σ) :
    command.run (database.map replace) = (command.run database).map replace := by
  obtain ⟨committed, transaction, snapshot⟩ := database
  cases command with
  | begin => rfl
  | write update => cases transaction <;> simp [Command.run, perform, map, commutes]
  | commit => cases transaction <;> rfl
  | abort => rfl
  | takeSnapshot => rfl
  | releaseSnapshot => rfl

/-- What commutes with every write commutes with every run. -/
theorem after_map (commands : List Command) (database : Database σ) :
    (database.map replace).after commands = (database.after commands).map replace := by
  induction commands generalizing database with
  | nil => rfl
  | cons command rest inductionHypothesis =>
    simp only [after, List.foldl_cons, run_map commutes] at inductionHypothesis ⊢
    exact inductionHypothesis (command.run database)

end Replacement

end Database

/-! ## The two stores -/

namespace Tables

/-- The store with the current version, if it had none. -/
def stamped (tables : Tables) : Tables :=
  { tables with version := some (tables.version.getD Store.currentVersion) }

theorem apply_stamped (update : Store.Update) (tables : Tables) :
    update.apply tables.stamped = (update.apply tables).stamped := by
  cases update <;> rfl

theorem ask_stamped (query : Store.Query α) (tables : Tables) :
    query.ask tables.stamped = query.stamped (query.ask tables) := by
  cases query <;> rfl

theorem putWeight_archived (tables : Tables) (representative : Account) (weight : Amount) :
    Store.putWeight representative weight tables.archived
      = (tables.putWeight representative weight).archived := by
  by_cases zero : weight.isZero
  · simp only [Store.putWeight, putWeight, zero, if_true]
    exact congrArg ({ tables.archived with representation := · })
      (Layout.weights.write_erase tables.weights representative).symm
  · simp only [Store.putWeight, putWeight, zero]
    exact congrArg ({ tables.archived with representation := · })
      (Layout.weights.write_insert tables.weights representative weight).symm

theorem receivables_archived (tables : Tables) (account : Account) :
    Store.receivables tables.archived account = Store.receivables tables account := by
  rw [receivables_eq_filter]
  exact Layout.receivables.listing_entriesUnder tables.receivables rfl fun key =>
    Identifier.isPrefixOf_toBytes account key.account key.hash.toBytes

theorem parked_archived (tables : Tables) (dependency : BlockHash) :
    Store.parked tables.archived dependency = Store.parked tables dependency := by
  rw [parked_eq_filter]
  exact Layout.parked.listing_entriesUnder tables.parked rfl fun key =>
    Identifier.isPrefixOf_toBytes dependency key.dependency key.hash.toBytes

theorem version_archived (tables : Tables) :
    Store.version? tables.archived = Store.version? tables := by
  have found : (tables.archived.table .metadata).get? Archive.versionKey
      = tables.version.map fun number => Bytes.bigEndian 4 number.toNat :=
    Layout.get?_metadata tables.version
  simp only [Store.version?, Archive.lookup, found]
  cases tables.version with
  | none => rfl
  | some version => simp [Archive.versioned_bigEndian, Except.map]

/-- Writing to the bytes is writing to the values. -/
theorem apply_archived (update : Store.Update) (tables : Tables) :
    update.apply tables.archived = (update.apply tables).archived := by
  cases update with
  | putAccount account record =>
    exact congrArg ({ tables.archived with accounts := · })
      (Layout.accounts.write_insert tables.accounts account record).symm
  | removeAccount account =>
    exact congrArg ({ tables.archived with accounts := · })
      (Layout.accounts.write_erase tables.accounts account).symm
  | putBlock stored =>
    exact congrArg ({ tables.archived with blocks := · })
      (Layout.blocks.write_insert tables.blocks stored.hash stored).symm
  | removeBlock hash =>
    exact congrArg ({ tables.archived with blocks := · })
      (Layout.blocks.write_erase tables.blocks hash).symm
  | putSuccessor hash next =>
    exact congrArg ({ tables.archived with successors := · })
      (Layout.successors.write_insert tables.successors hash next).symm
  | removeSuccessor hash =>
    exact congrArg ({ tables.archived with successors := · })
      (Layout.successors.write_erase tables.successors hash).symm
  | putReceivable key record =>
    exact congrArg ({ tables.archived with pending := · })
      (Layout.receivables.write_insert tables.receivables key record).symm
  | removeReceivable key =>
    exact congrArg ({ tables.archived with pending := · })
      (Layout.receivables.write_erase tables.receivables key).symm
  | putFrontier hash account =>
    exact congrArg ({ tables.archived with frontiers := · })
      (Layout.frontiers.write_insert tables.frontiers hash account).symm
  | removeFrontier hash =>
    exact congrArg ({ tables.archived with frontiers := · })
      (Layout.frontiers.write_erase tables.frontiers hash).symm
  | putWeight representative weight => exact putWeight_archived tables representative weight
  | putParked key record =>
    exact congrArg ({ tables.archived with unchecked := · })
      (Layout.parked.write_insert tables.parked key record).symm
  | removeParked key =>
    exact congrArg ({ tables.archived with unchecked := · })
      (Layout.parked.write_erase tables.parked key).symm
  | putVersion version =>
    exact congrArg ({ tables.archived with metadata := · })
      (Layout.insert_metadata tables.version version)

/-- The bytes answer as the values do. -/
theorem ask_archived (query : Store.Query α) (tables : Tables) :
    query.ask tables.archived = query.ask tables := by
  cases query with
  | account account => exact Layout.accounts.lookup_write tables.accounts account rfl
  | hasAccount account =>
    exact congrArg (Except.map Option.isSome)
      (Layout.accounts.lookup_write tables.accounts account rfl)
  | accounts => exact Layout.accounts.listing_map_entry tables.accounts.entries
  | block hash => exact Layout.blocks.lookup_write tables.blocks hash rfl
  | hasBlock hash => exact Layout.blocks.contains_write tables.blocks hash
  | successor hash => exact Layout.successors.lookup_write tables.successors hash rfl
  | receivable key => exact Layout.receivables.lookup_write tables.receivables key rfl
  | hasReceivable key =>
    exact congrArg (Except.map Option.isSome)
      (Layout.receivables.lookup_write tables.receivables key rfl)
  | receivables account => exact receivables_archived tables account
  | hasAnyReceivable account =>
    exact congrArg (Except.map fun entries => !entries.isEmpty)
      (receivables_archived tables account)
  | frontier hash => exact Layout.frontiers.lookup_write tables.frontiers hash rfl
  | weight representative =>
    have held : tables.archived.table .representation = Layout.weights.write tables.weights := rfl
    exact congrArg (Except.map (·.getD .zero))
      (Layout.weights.lookup_write tables.weights representative held)
  | weights => exact Layout.weights.listing_map_entry tables.weights.entries
  | parked dependency => exact parked_archived tables dependency
  | hasParked key => exact Layout.parked.contains_write tables.parked key
  | version => exact version_archived tables
  | counts =>
    change (⟨_, _, _, _, _⟩ : TableCounts) = ⟨_, _, _, _, _⟩
    simp only [archived, Layout.size_write]

end Tables

namespace Archive

theorem create_eq_archived : create = Tables.empty.stamped.archived := rfl

/-- After the same commands a new store of bytes and an empty store of values answer every query
alike, wherever it looks; only where the one has the version it was created with, the other has
none. A query changes nothing, so one in the middle of a run is one after the commands before
it. -/
theorem answers_as_tables (commands : List Database.Command) (view : Database.View)
    (query : Store.Query α) :
    (view.state? ((Database.ofState create).after commands)).map query.ask
      = (view.state? ((Database.ofState Tables.empty).after commands)).map
          fun tables => query.stamped (query.ask tables) := by
  have commutes (update : Store.Update) (tables : Tables) :
      update.apply tables.stamped.archived = (update.apply tables).stamped.archived := by
    rw [Tables.apply_archived, Tables.apply_stamped]
  have bytes : Database.ofState create
      = (Database.ofState Tables.empty).map fun tables => tables.stamped.archived := by
    rw [create_eq_archived]
    rfl
  rw [bytes, Database.after_map commutes, Database.state?_map, Option.map_map]
  refine congrArg (Option.map · _) (funext fun tables => ?_)
  exact (Tables.ask_archived query tables.stamped).trans (Tables.ask_stamped query tables)

end Archive

end AccountChains
