import AccountChains.Proofs.Store.Keys
import AccountChains.Store.Archive

/-!
Contract: a table of values as a table of bytes.

A layout writes keys so that their bytes are in the order of the keys, and reads back
every key and every value that it writes. So writing a table keeps the order of its
entries, every operation on the one table is the same operation on the other, and what
is read from the bytes is what the values say.

Owns: `Layout` with its laws, the layouts of all tables, and the bytes of a whole store
(`Tables.archived`). Does not own: the operations of a store.
-/

namespace AccountChains

open Std

/-! ## Values read back -/

namespace Archive

theorem decoded_encode {α : Type} (name : TableName) (codec : Codec α) (value : α) :
    decoded name codec (codec.encode value) = .ok value := by
  have written := codec.read_encode value []
  rw [List.append_nil] at written
  rw [decoded, written]
  rfl

theorem identified_toBytes {kind : IdentifierKind} (name : TableName)
    (identifier : Identifier kind) :
    identified name identifier.toBytes = .ok identifier := by
  simp [identified, Identifier.ofBytes?, List.take_of_length_le]

theorem weighed_toBytes (weight : Amount) : weighed weight.toBytes = .ok weight := by
  simp [weighed]

theorem versioned_bigEndian (version : UInt32) :
    versioned (Bytes.bigEndian 4 version.toNat) = .ok version := by
  have small : version.toNat < Bytes.span 4 := version.toNat_lt
  simp [versioned, Bytes.ofBigEndian_bigEndian, Nat.mod_eq_of_lt small]

end Archive

/-- How keys and values are written as bytes, with the ways back. -/
structure Layout (κ α : Type) [Ord κ] where
  toKey : κ → Bytes
  readsKey : Bytes → Except StoreError κ
  toValue : α → Bytes
  reads : Bytes → Except StoreError α
  ordered : ∀ left right, compare (toKey left) (toKey right) = compare left right
  readsKey_toKey : ∀ key, readsKey (toKey key) = .ok key
  reads_toValue : ∀ value, reads (toValue value) = .ok value

namespace Layout

variable {κ α : Type} [Ord κ]

def entry (layout : Layout κ α) (entry : κ × α) : Bytes × Bytes :=
  (layout.toKey entry.1, layout.toValue entry.2)

section Entries

variable (layout : Layout κ α) (key : κ) (value : α) (entries : List (κ × α))

theorem find?_map_entry : Entries.find? (layout.toKey key) (entries.map layout.entry)
    = (Entries.find? key entries).map layout.toValue := by
  induction entries with
  | nil => rfl
  | cons head rest inductionHypothesis =>
    simp only [List.map_cons, entry, Entries.find?, layout.ordered]
    cases compare key head.1 with
    | lt => rfl
    | eq => rfl
    | gt => exact inductionHypothesis

theorem insert_map_entry :
    Entries.insert (layout.toKey key) (layout.toValue value) (entries.map layout.entry)
      = (Entries.insert key value entries).map layout.entry := by
  induction entries with
  | nil => rfl
  | cons head rest inductionHypothesis =>
    simp only [List.map_cons, entry, Entries.insert, layout.ordered]
    cases compare key head.1 with
    | lt => rfl
    | eq => rfl
    | gt => exact congrArg (layout.entry head :: ·) inductionHypothesis

theorem erase_map_entry : Entries.erase (layout.toKey key) (entries.map layout.entry)
    = (Entries.erase key entries).map layout.entry := by
  induction entries with
  | nil => rfl
  | cons head rest inductionHypothesis =>
    simp only [List.map_cons, entry, Entries.erase, layout.ordered]
    cases compare key head.1 with
    | lt => rfl
    | eq => rfl
    | gt => exact congrArg (layout.entry head :: ·) inductionHypothesis

/-- What is written can all be read, in the order of the entries. -/
theorem listing_map_entry :
    Archive.listing (entries.map layout.entry) layout.readsKey layout.reads = .ok entries := by
  induction entries with
  | nil => rfl
  | cons head rest inductionHypothesis =>
    unfold Archive.listing at inductionHypothesis ⊢
    rw [List.map_cons, List.mapM_cons, inductionHypothesis]
    simp only [entry, layout.readsKey_toKey, layout.reads_toValue, bind, Except.bind, pure,
      Except.pure]

end Entries

/-! ## Tables -/

variable [TransOrd κ] [LawfulEqOrd κ]

/-- The entries of a table, written. -/
def write (layout : Layout κ α) (table : Table κ α) : ByteTable where
  entries := table.entries.map layout.entry
  increasing := List.pairwise_map.mpr
    (table.increasing.imp fun below => (layout.ordered _ _).trans below)

section Laws

variable (layout : Layout κ α) (table : Table κ α) (key : κ) (value : α)

theorem write_insert :
    layout.write (table.insert key value)
      = (layout.write table).insert (layout.toKey key) (layout.toValue value) := by
  simp only [write, Table.insert, insert_map_entry]

theorem write_erase :
    layout.write (table.erase key) = (layout.write table).erase (layout.toKey key) := by
  simp only [write, Table.erase, erase_map_entry]

theorem get?_write :
    (layout.write table).get? (layout.toKey key) = (table.get? key).map layout.toValue :=
  layout.find?_map_entry key table.entries

theorem contains_write :
    (layout.write table).contains (layout.toKey key) = table.contains key := by
  simp [Table.contains, get?_write]

theorem size_write : (layout.write table).size = table.size := by
  simp [Table.size, write]

theorem filter_write (accepts : Bytes → Bool) : (layout.write table).filter accepts
    = (table.filter fun name => accepts (layout.toKey name)).map layout.entry := by
  simp [Table.filter, write, List.filter_map, Function.comp_def, entry]

/-- What is found under a key reads as what the table has under it. -/
theorem lookup_write {archive : Archive} {name : TableName}
    (held : archive.table name = layout.write table) :
    archive.lookup name (layout.toKey key) layout.reads = .ok (table.get? key) := by
  simp only [Archive.lookup, held, get?_write]
  cases table.get? key with
  | none => rfl
  | some found => simp [layout.reads_toValue, Except.map]

/-- Reading on from the bytes of a first part lists the entries that the part selects. -/
theorem listing_entriesUnder {archive : Archive} {name : TableName} {start : Bytes}
    {accepts : κ → Bool} (held : archive.table name = layout.write table)
    (begins : ∀ key, start.isPrefixOf (layout.toKey key) = accepts key) :
    Archive.listing (archive.entriesUnder name start) layout.readsKey layout.reads
      = .ok (table.filter accepts) := by
  have scanned : (archive.table name).scan start (fun key => start.isPrefixOf key)
      = (archive.table name).filter fun key => start.isPrefixOf key :=
    Table.scan_eq_filter _ (fun _ => Bytes.ge_of_isPrefixOf)
      fun _ _ => Bytes.isPrefixOf_of_between
  rw [Archive.entriesUnder, scanned, held, filter_write, listing_map_entry]
  simp only [begins]

end Laws

/-! ## The layouts of a store -/

/-- Records under an identifier. -/
def underIdentifier {kind : IdentifierKind} (name : TableName) (toValue : α → Bytes)
    (reads : Bytes → Except StoreError α)
    (reads_toValue : ∀ value, reads (toValue value) = .ok value) :
    Layout (Identifier kind) α where
  toKey := Identifier.toBytes
  readsKey := Archive.identified name
  toValue := toValue
  reads := reads
  ordered := Identifier.compare_toBytes
  readsKey_toKey := Archive.identified_toBytes name
  reads_toValue := reads_toValue

def accounts : Layout Account AccountRecord :=
  underIdentifier .accounts Codec.accountRecord.encode
    (Archive.decoded .accounts Codec.accountRecord)
    (Archive.decoded_encode .accounts Codec.accountRecord)

def blocks : Layout BlockHash StoredBlock :=
  underIdentifier .blocks Codec.storedBlock.encode (Archive.decoded .blocks Codec.storedBlock)
    (Archive.decoded_encode .blocks Codec.storedBlock)

def successors : Layout BlockHash BlockHash :=
  underIdentifier .successors Identifier.toBytes (Archive.identified .successors)
    (Archive.identified_toBytes .successors)

def frontiers : Layout BlockHash Account :=
  underIdentifier .frontiers Identifier.toBytes (Archive.identified .frontiers)
    (Archive.identified_toBytes .frontiers)

def weights : Layout Account Amount :=
  underIdentifier .representation Amount.toBytes Archive.weighed Archive.weighed_toBytes

def receivables : Layout ReceivableKey Receivable where
  toKey := ReceivableKey.toBytes
  readsKey := Archive.paired .pending ReceivableKey.ofBytes?
  toValue := Codec.receivable.encode
  reads := Archive.decoded .pending Codec.receivable
  ordered := ReceivableKey.compare_toBytes
  readsKey_toKey key := by simp [Archive.paired, ReceivableKey.ofBytes?_toBytes]
  reads_toValue := Archive.decoded_encode .pending Codec.receivable

def parked : Layout ParkedKey ParkedBlock where
  toKey := ParkedKey.toBytes
  readsKey := Archive.paired .unchecked ParkedKey.ofBytes?
  toValue := Codec.parkedBlock.encode
  reads := Archive.decoded .unchecked Codec.parkedBlock
  ordered := ParkedKey.compare_toBytes
  readsKey_toKey key := by simp [Archive.paired, ParkedKey.ofBytes?_toBytes]
  reads_toValue := Archive.decoded_encode .unchecked Codec.parkedBlock

/-- The table of metadata that holds a version, if there is one. -/
def metadata : Option UInt32 → ByteTable
  | none => .empty
  | some version => Table.empty.insert Archive.versionKey (Bytes.bigEndian 4 version.toNat)

theorem get?_metadata (version : Option UInt32) : (metadata version).get? Archive.versionKey
    = version.map fun number => Bytes.bigEndian 4 number.toNat := by
  cases version with
  | none => rfl
  | some number => rw [metadata, Table.get?_insert, if_pos rfl, Option.map_some]

/-- A version replaces the one that is there. -/
theorem insert_metadata (version : Option UInt32) (number : UInt32) :
    (metadata version).insert Archive.versionKey (Bytes.bigEndian 4 number.toNat)
      = metadata (some number) := by
  cases version with
  | none => rfl
  | some _ =>
    apply Table.ext
    intro key
    simp only [metadata, Table.get?_insert]
    split <;> rfl

end Layout

/-- The bytes of a whole store. -/
def Tables.archived (tables : Tables) : Archive where
  accounts := Layout.accounts.write tables.accounts
  blocks := Layout.blocks.write tables.blocks
  successors := Layout.successors.write tables.successors
  pending := Layout.receivables.write tables.receivables
  frontiers := Layout.frontiers.write tables.frontiers
  representation := Layout.weights.write tables.weights
  unchecked := Layout.parked.write tables.parked
  metadata := Layout.metadata tables.version

end AccountChains
