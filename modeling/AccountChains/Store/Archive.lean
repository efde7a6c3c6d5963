import AccountChains.Store.Basic

/-!
Contract: the store that keeps its tables as bytes.

Every table maps keys to values, both byte strings, in the order of the keys. A
record is decoded when it is read, so damage shows at the read that meets it; only
looking whether a block or a waiting block is present reads no record. Listings
by the first part of a key read on from its bytes while keys start with them.

Owns: the layout of every table, and opening: a store without a version is given
the current one, a store with another version is refused.
-/

namespace AccountChains

abbrev ByteTable := Table Bytes Bytes

/-- The tables of a store, as bytes. -/
structure Archive where
  accounts : ByteTable
  blocks : ByteTable
  successors : ByteTable
  pending : ByteTable
  frontiers : ByteTable
  representation : ByteTable
  unchecked : ByteTable
  metadata : ByteTable

namespace Archive

def empty : Archive :=
  ⟨.empty, .empty, .empty, .empty, .empty, .empty, .empty, .empty⟩

def table (archive : Archive) : TableName → ByteTable
  | .accounts => archive.accounts
  | .blocks => archive.blocks
  | .successors => archive.successors
  | .pending => archive.pending
  | .frontiers => archive.frontiers
  | .representation => archive.representation
  | .unchecked => archive.unchecked
  | .metadata => archive.metadata

def updateTable (archive : Archive) (name : TableName) (change : ByteTable → ByteTable) :
    Archive :=
  match name with
  | .accounts => { archive with accounts := change archive.accounts }
  | .blocks => { archive with blocks := change archive.blocks }
  | .successors => { archive with successors := change archive.successors }
  | .pending => { archive with pending := change archive.pending }
  | .frontiers => { archive with frontiers := change archive.frontiers }
  | .representation => { archive with representation := change archive.representation }
  | .unchecked => { archive with unchecked := change archive.unchecked }
  | .metadata => { archive with metadata := change archive.metadata }

def put (name : TableName) (key value : Bytes) (archive : Archive) : Archive :=
  archive.updateTable name fun table => table.insert key value

def remove (name : TableName) (key : Bytes) (archive : Archive) : Archive :=
  archive.updateTable name fun table => table.erase key

/-! ## Reading -/

/-- A value that decodes to a record. -/
def decoded {α : Type} (name : TableName) (codec : Codec α) (value : Bytes) :
    Except StoreError α :=
  (codec.read value).mapError (.undecodable name)

/-- A value that starts with an identifier. -/
def identified {kind : IdentifierKind} (name : TableName) (value : Bytes) :
    Except StoreError (Identifier kind) :=
  match Identifier.ofBytes? value with
  | some identifier => .ok identifier
  | none => .error (.malformed name)

/-- A value that is a weight, exactly 16 bytes, most significant first. -/
def weighed (value : Bytes) : Except StoreError Amount :=
  if value.length = 16 then .ok (.ofBytes value) else .error (.malformed .representation)

/-- A value that is a version, exactly four bytes, most significant first. -/
def versioned (value : Bytes) : Except StoreError UInt32 :=
  if value.length = 4 then .ok (.ofNat (Bytes.ofBigEndian value)) else .error (.malformed .metadata)

/-- What a key of a table reads as, if it is there. -/
def lookup {α : Type} (archive : Archive) (name : TableName) (key : Bytes)
    (reads : Bytes → Except StoreError α) : Except StoreError (Option α) :=
  match (archive.table name).get? key with
  | none => .ok none
  | some value => (reads value).map some

/-- Read all given entries; the first one that cannot be read decides. -/
def listing {κ α : Type} (entries : List (Bytes × Bytes))
    (readsKey : Bytes → Except StoreError κ) (reads : Bytes → Except StoreError α) :
    Except StoreError (List (κ × α)) :=
  entries.mapM fun (key, value) => do
    let name ← readsKey key
    return (name, ← reads value)

/-- The entries of a table from the given bytes on, up to the first whose key does not start with
them. -/
def entriesUnder (archive : Archive) (name : TableName) (start : Bytes) : List (Bytes × Bytes) :=
  (archive.table name).scan start fun key => start.isPrefixOf key

/-- A key of two parts; longer keys are cut. -/
def paired {κ : Type} (name : TableName) (ofBytes? : Bytes → Option κ) (key : Bytes) :
    Except StoreError κ :=
  match ofBytes? key with
  | some parts => .ok parts
  | none => .error (.malformed name)

/-- The key of the version in the table of metadata. -/
def versionKey : Bytes := "version".toUTF8.toList

instance : Store Archive where
  account? archive account :=
    archive.lookup .accounts account.toBytes (decoded .accounts Codec.accountRecord)
  accounts archive :=
    listing archive.accounts.entries (identified .accounts)
      (decoded .accounts Codec.accountRecord)
  block? archive hash := archive.lookup .blocks hash.toBytes (decoded .blocks Codec.storedBlock)
  hasBlock archive hash := archive.blocks.contains hash.toBytes
  successor? archive hash := archive.lookup .successors hash.toBytes (identified .successors)
  receivable? archive key :=
    archive.lookup .pending key.toBytes (decoded .pending Codec.receivable)
  receivables archive account :=
    listing (archive.entriesUnder .pending account.toBytes)
      (paired .pending ReceivableKey.ofBytes?) (decoded .pending Codec.receivable)
  frontier? archive hash := archive.lookup .frontiers hash.toBytes (identified .frontiers)
  weight archive representative :=
    (archive.lookup .representation representative.toBytes weighed).map (·.getD .zero)
  weights archive :=
    listing archive.representation.entries (identified .representation) weighed
  parked archive dependency :=
    listing (archive.entriesUnder .unchecked dependency.toBytes)
      (paired .unchecked ParkedKey.ofBytes?) (decoded .unchecked Codec.parkedBlock)
  hasParked archive key := archive.unchecked.contains key.toBytes
  version? archive := archive.lookup .metadata versionKey versioned
  counts archive :=
    { accounts := archive.accounts.size
      blocks := archive.blocks.size
      receivables := archive.pending.size
      frontiers := archive.frontiers.size
      parked := archive.unchecked.size }
  putAccount account record := put .accounts account.toBytes (Codec.accountRecord.encode record)
  removeAccount account := remove .accounts account.toBytes
  putBlock stored := put .blocks stored.hash.toBytes (Codec.storedBlock.encode stored)
  removeBlock hash := remove .blocks hash.toBytes
  putSuccessor hash next := put .successors hash.toBytes next.toBytes
  removeSuccessor hash := remove .successors hash.toBytes
  putReceivable key record := put .pending key.toBytes (Codec.receivable.encode record)
  removeReceivable key := remove .pending key.toBytes
  putFrontier hash account := put .frontiers hash.toBytes account.toBytes
  removeFrontier hash := remove .frontiers hash.toBytes
  putWeight representative weight :=
    if weight.isZero then remove .representation representative.toBytes
    else put .representation representative.toBytes weight.toBytes
  putParked key record := put .unchecked key.toBytes (Codec.parkedBlock.encode record)
  removeParked key := remove .unchecked key.toBytes
  putVersion version := put .metadata versionKey (Bytes.bigEndian 4 version.toNat)

/-- Open a store: give it the current version if it has none, refuse any other version. -/
def openExisting (archive : Archive) : Except StoreError Archive :=
  match Store.version? archive with
  | .error cause => .error cause
  | .ok none => .ok (Store.putVersion Store.currentVersion archive)
  | .ok (some found) =>
    if found = Store.currentVersion then .ok archive
    else .error (.versionMismatch found Store.currentVersion)

/-- A new store with the current version. -/
def create : Archive := Store.putVersion Store.currentVersion empty

end Archive

end AccountChains
