import AccountChains.Proofs.Ledger.Frame

/-!
Contract: taking the last block of a chain away.

A head that no block builds on can be taken away: the record of its account goes
back to the block before it, what it received waits again, what it sent waits no
longer, and its weight goes back. A coherent ledger stays coherent.

Owns: `retract`, `Removable`, and the preservation of `Coherent`. Does not own:
how the program computes what to take away, or in which order heads go.
-/

namespace AccountChains

open BlockTable

/-- The record of an account whose head is gone, given what was before the head. -/
def AccountRecord.backTo (record : AccountRecord) (previousHash naming : BlockHash)
    (previous : StoredBlock) : AccountRecord where
  head := previousHash
  representativeBlock := naming
  openBlock := record.openBlock
  balance := previous.sideband.balance
  modified := previous.sideband.timestamp
  blockCount := record.blockCount - 1
  epoch := previous.sideband.details.epoch

/-- What a block received, when it waits again. -/
def BlockTable.returned (blocks : BlockTable) (head : StoredBlock) (source : BlockHash) :
    Receivable where
  source := ((blocks.get? source).map fun send => send.sideband.account).getD .zero
  amount := head.sideband.balance.wrappingSub (balanceBefore blocks head)
  epoch := head.sideband.sourceEpoch

namespace Tables

/-- Take the head of a chain away; `before` is the record of the account without it. -/
def retract (tables : Tables) (record : AccountRecord) (head : StoredBlock)
    (before : Option AccountRecord) : Tables :=
  let account := head.sideband.account
  let others := tables.frontiers.erase record.head
  { tables with
    accounts := match before with
      | some earlier => tables.accounts.insert account earlier
      | none => tables.accounts.erase account
    blocks := tables.blocks.erase record.head
    successors := tables.successors.erase head.block.previous
    receivables := match head.transfer with
      | .sends destination => tables.receivables.erase ⟨destination, record.head⟩
      | .receives source => tables.receivables.insert ⟨account, source⟩
          (returned tables.blocks head source)
      | .neither => tables.receivables
    frontiers :=
      if (tables.blocks.get? head.block.previous).any fun previous => previous.block.kind.isLegacy
      then others.insert head.block.previous account
      else others
    weights := (tables.reweigh (some (votes tables.blocks record))
      (before.map (votes tables.blocks))).weights }

private theorem count_pred {count before : UInt64} (next : count.toNat = before.toNat + 1) :
    count - 1 = before := by
  apply UInt64.toNat_inj.mp
  have positive : (1 : UInt64) ≤ count := by
    rw [UInt64.le_iff_toNat_le, next]
    exact Nat.le_add_left _ _
  rw [UInt64.toNat_sub_of_le _ _ positive, next]
  rfl

/-- The last block of a chain can be taken away unless it is the genesis block or received. -/
structure Removable (constants : LedgerConstants) (tables : Tables) (record : AccountRecord)
    (head : StoredBlock) : Prop where
  owned : tables.accounts.get? head.sideband.account = some record
  found : tables.blocks.get? record.head = some head
  notGenesis : record.head ≠ constants.genesis.hash
  unreceived : Unreceived constants.genesis.hash tables.blocks record.head

/-- The record of an account as it was before its head. -/
inductive Precedes (blocks : BlockTable) (record : AccountRecord) (head : StoredBlock) :
    Option AccountRecord → Prop where
  | first (isFirst : head.block.previous = .zero) : Precedes blocks record head none
  | later {previous : StoredBlock} {naming : BlockHash}
      (found : blocks.get? head.block.previous = some previous)
      (named : NamedBy blocks head.block.previous naming) :
      Precedes blocks record head (some (record.backTo head.block.previous naming previous))

section Lookups

variable {tables : Tables} {record : AccountRecord} {head block : StoredBlock}
  {before : Option AccountRecord} {hash : BlockHash}

theorem found_retract : (tables.retract record head before).blocks.get? hash = some block ↔
    hash ≠ record.head ∧ tables.blocks.get? hash = some block := by
  change (tables.blocks.erase record.head).get? hash = some block ↔ _
  by_cases same : hash = record.head
  · simp [same]
  · simp [Table.get?_erase_of_ne _ same, same]

variable (tables record head before) in
theorem retract_sameElsewhere :
    SameElsewhere record.head tables.blocks (tables.retract record head before).blocks :=
  sameElsewhere_erase _ _

theorem get?_successors_retract :
    (tables.retract record head before).successors.get? hash
      = if hash = head.block.previous then none else tables.successors.get? hash :=
  Table.get?_erase _ _ _

/-- A block that stays is the last one of its chain if it was, or if it comes before the head. -/
theorem last_retract : (tables.retract record head before).successors.get? hash = none ↔
    hash = head.block.previous ∨ tables.successors.get? hash = none := by
  rw [get?_successors_retract]
  by_cases same : hash = head.block.previous <;> simp [same]

theorem get?_accounts_retract_self :
    (tables.retract record head before).accounts.get? head.sideband.account = before := by
  cases before with
  | none => exact Table.get?_erase_self _ _
  | some earlier => exact Table.get?_insert_self _ _ _

theorem get?_accounts_retract_of_ne {account : Account}
    (different : account ≠ head.sideband.account) :
    (tables.retract record head before).accounts.get? account = tables.accounts.get? account := by
  cases before with
  | none => exact Table.get?_erase_of_ne _ different
  | some earlier => exact Table.get?_insert_of_ne _ different _

theorem get?_frontiers_retract : (tables.retract record head before).frontiers.get? hash
    = if hash = head.block.previous ∧ ((tables.blocks.get? head.block.previous).any
          fun previous => previous.block.kind.isLegacy) then some head.sideband.account
      else if hash = record.head then none else tables.frontiers.get? hash := by
  unfold retract
  by_cases legacy : (tables.blocks.get? head.block.previous).any
      fun previous => previous.block.kind.isLegacy
  · simp only [legacy, if_true, and_true, Table.get?_insert, Table.get?_erase]
  · simp only [legacy, Bool.false_eq_true, if_false, and_false, Table.get?_erase]

end Lookups

namespace Coherent

variable {constants : LedgerConstants} {tables : Tables} {record : AccountRecord}
  {head : StoredBlock} {before : Option AccountRecord}
  (coherent : Coherent constants tables) (sound : constants.Sound)
  (removable : Removable constants tables record head)
  (precedes : Precedes tables.blocks record head before)

section Facts

include coherent removable

theorem removable_recorded : Recorded tables head.sideband.account record head := by
  obtain ⟨other, recorded⟩ := coherent.recorded removable.owned
  obtain rfl := Option.some.inj (removable.found.symm.trans recorded.found)
  exact recorded

theorem removable_justified : Justified tables.blocks head :=
  coherent.justified removable.found removable.notGenesis

theorem removable_follows {previous : StoredBlock}
    (previousFound : tables.blocks.get? head.block.previous = some previous) :
    Follows previous head := by
  have later := (coherent.keyed previousFound).2
  obtain ⟨other, otherFound, follows⟩ := (removable_justified coherent removable).follows later
  obtain rfl := Option.some.inj (previousFound.symm.trans otherFound)
  exact follows

theorem removable_loose : Loose constants.genesis.hash tables.blocks record.head := by
  rintro dependent ⟨block, found, previous | ⟨notGenesis, receives⟩⟩
  · have notZero := (coherent.keyed removable.found).2
    have linked := (coherent.linked record.head dependent).mpr ⟨notZero, block, found, previous⟩
    rw [(removable_recorded coherent removable).last] at linked
    simp at linked
  · exact removable.unreceived dependent block found notGenesis receives

/-- The block before the head leads to it. -/
theorem previous_linked (later : head.block.previous ≠ .zero) :
    tables.successors.get? head.block.previous = some record.head :=
  successor_of coherent removable.found later

end Facts

section Preservation

include coherent

omit removable precedes in
theorem retract_keyed {hash : BlockHash} {block : StoredBlock}
    (found : (tables.retract record head before).blocks.get? hash = some block) :
    block.hash = hash ∧ hash ≠ .zero :=
  coherent.keyed (found_retract.mp found).2

include removable

theorem retract_genesis :
    ∃ now, (tables.retract record head before).blocks.get? constants.genesis.hash
      = some ⟨constants.genesis,
        Ledger.legacySideband constants.genesisAccount 1 constants.genesisAmount now⟩ := by
  obtain ⟨now, found⟩ := coherent.genesis
  exact ⟨now, found_retract.mpr ⟨removable.notGenesis.symm, found⟩⟩

theorem retract_justified {hash : BlockHash} {block : StoredBlock}
    (found : (tables.retract record head before).blocks.get? hash = some block)
    (notGenesis : hash ≠ constants.genesis.hash) :
    Justified (tables.retract record head before).blocks block := by
  have loose := removable_loose coherent removable
  obtain ⟨-, old⟩ := found_retract.mp found
  exact (coherent.justified old notGenesis).elsewhere (retract_sameElsewhere _ _ _ _) loose
    (loose.previous_ne old) (loose.unreceived hash block old notGenesis)

omit removable in
theorem retract_once {hash other source : BlockHash} {block found : StoredBlock}
    (hashFound : (tables.retract record head before).blocks.get? hash = some block)
    (otherFound : (tables.retract record head before).blocks.get? other = some found)
    (hashNotGenesis : hash ≠ constants.genesis.hash)
    (otherNotGenesis : other ≠ constants.genesis.hash)
    (hashReceives : block.transfer = .receives source)
    (otherReceives : found.transfer = .receives source) : hash = other :=
  coherent.once (found_retract.mp hashFound).2 (found_retract.mp otherFound).2 hashNotGenesis
    otherNotGenesis hashReceives otherReceives

omit removable in
theorem retract_ranked :
    ∃ rank, Ranked constants.genesis.hash (tables.retract record head before).blocks rank := by
  obtain ⟨rank, ranked⟩ := coherent.ranked
  refine ⟨rank, ?_⟩
  rintro hash dependency ⟨block, found, depends⟩
  exact ranked hash dependency ⟨block, (found_retract.mp found).2, depends⟩

theorem retract_linked (previous hash : BlockHash) :
    (tables.retract record head before).successors.get? previous = some hash ↔
      previous ≠ .zero ∧ ∃ block, (tables.retract record head before).blocks.get? hash
        = some block ∧ block.block.previous = previous := by
  rw [get?_successors_retract]
  split
  · next isPrevious =>
      refine iff_of_false (by simp) ?_
      rintro ⟨notZero, block, found, same⟩
      obtain ⟨notHead, old⟩ := found_retract.mp found
      -- What comes after the predecessor of the head is the head.
      have linked := (coherent.linked previous hash).mpr ⟨notZero, block, old, same⟩
      have later : head.block.previous ≠ .zero := isPrevious ▸ notZero
      rw [isPrevious, previous_linked coherent removable later] at linked
      exact notHead (Option.some.inj linked).symm
  · next notPrevious =>
      rw [coherent.linked]
      refine and_congr_right fun notZero => exists_congr fun block => ?_
      constructor
      · rintro ⟨old, same⟩
        refine ⟨found_retract.mpr ⟨?_, old⟩, same⟩
        rintro rfl
        obtain rfl := Option.some.inj (removable.found.symm.trans old)
        exact notPrevious same.symm
      · rintro ⟨found, same⟩
        exact ⟨(found_retract.mp found).2, same⟩

/-! ### Accounts -/

/-- The record of the account without its head describes the block before. -/
theorem recorded_before {earlier : AccountRecord}
    (precedes : Precedes tables.blocks record head (some earlier)) :
    ∃ previous, tables.blocks.get? head.block.previous = some previous ∧
      Recorded (tables.retract record head (some earlier)) head.sideband.account earlier
        previous := by
  have loose := removable_loose coherent removable
  have recorded := removable_recorded coherent removable
  cases precedes with
  | @later previous naming previousFound named =>
      refine ⟨previous, previousFound, ?_⟩
      have notHead := loose.previous_ne removable.found
      have follows := removable_follows coherent removable previousFound
      obtain ⟨first, firstFound, owner, isFirst⟩ := recorded.opening
      exact {
        found := found_retract.mpr ⟨notHead, previousFound⟩
        account := follows.account
        last := by
          rw [get?_successors_retract]
          exact if_pos rfl
        balance := rfl
        modified := rfl
        blockCount := by
          apply count_pred
          rw [recorded.blockCount]
          exact follows.height
        epoch := rfl
        opening := by
          refine ⟨first, found_retract.mpr ⟨?_, firstFound⟩, owner, isFirst⟩
          intro isHead
          change record.openBlock = record.head at isHead
          rw [isHead, removable.found] at firstFound
          obtain rfl := Option.some.inj firstFound
          exact (coherent.keyed previousFound).2 isFirst
        representative :=
          named.elsewhere (retract_sameElsewhere _ _ _ _) loose notHead }

theorem retract_recorded (precedes : Precedes tables.blocks record head before)
    {account : Account} {other : AccountRecord}
    (owned : (tables.retract record head before).accounts.get? account = some other) :
    ∃ last, Recorded (tables.retract record head before) account other last := by
  by_cases same : account = head.sideband.account
  · subst same
    rw [get?_accounts_retract_self] at owned
    subst owned
    obtain ⟨previous, -, recorded⟩ := recorded_before coherent removable precedes
    exact ⟨previous, recorded⟩
  · rw [get?_accounts_retract_of_ne same] at owned
    obtain ⟨last, recorded⟩ := coherent.recorded owned
    obtain ⟨first, firstFound, owner, isFirst⟩ := recorded.opening
    -- The head belongs to one account only.
    have notHead {hash : BlockHash} {block : StoredBlock}
        (found : tables.blocks.get? hash = some block)
        (owner : block.sideband.account = account) : hash ≠ record.head := by
      rintro rfl
      obtain rfl := Option.some.inj (removable.found.symm.trans found)
      exact same owner.symm
    exact ⟨last, {
      found := found_retract.mpr ⟨notHead recorded.found recorded.account, recorded.found⟩
      account := recorded.account
      last := by
        rw [get?_successors_retract]
        split
        · rfl
        · exact recorded.last
      balance := recorded.balance
      modified := recorded.modified
      blockCount := recorded.blockCount
      epoch := recorded.epoch
      opening := ⟨first, found_retract.mpr ⟨notHead firstFound owner, firstFound⟩, owner, isFirst⟩
      representative := recorded.representative.elsewhere (retract_sameElsewhere _ _ _ _)
        (removable_loose coherent removable) (notHead recorded.found recorded.account) }⟩

include sound in
theorem retract_belongs (precedes : Precedes tables.blocks record head before)
    {hash : BlockHash} {block : StoredBlock}
    (found : (tables.retract record head before).blocks.get? hash = some block) :
    ∃ other, Belongs (tables.retract record head before) hash block other := by
  obtain ⟨notHead, old⟩ := found_retract.mp found
  obtain ⟨other, belongs⟩ := coherent.belongs old
  by_cases same : block.sideband.account = head.sideband.account
  · have owned := same ▸ belongs.found
    obtain rfl := Option.some.inj (removable.owned.symm.trans owned)
    have below := height_lt coherent sound old belongs (Ne.symm notHead)
    have blockCount := (removable_recorded coherent removable).blockCount
    cases precedes with
    | first isFirst =>
        -- Nothing is below the first block.
        have height := ((removable_justified coherent removable).first isFirst).1
        have positive := height_pos coherent sound old
        rw [blockCount] at below
        omega
    | @later previous naming previousFound named =>
        have oneHigher := (removable_follows coherent removable previousFound).height
        refine ⟨record.backTo head.block.previous naming previous, ?_, ?_, ?_, belongs.first⟩
        · rw [same]
          exact get?_accounts_retract_self
        · rw [blockCount] at below
          have count : (record.backTo head.block.previous naming previous).blockCount
              = previous.sideband.height := by
            apply count_pred
            rw [blockCount, oneHigher]
          rw [count]
          omega
        · intro last
          rcases last_retract.mp last with isPrevious | oldLast
          · exact isPrevious.symm
          · exact absurd (belongs.last oldLast).symm notHead
  · refine ⟨other, ?_, belongs.height, ?_, belongs.first⟩
    · rw [get?_accounts_retract_of_ne same]
      exact belongs.found
    · intro last
      rcases last_retract.mp last with isPrevious | oldLast
      · -- The block before the head belongs to the account of the head.
        subst isPrevious
        exact absurd (removable_follows coherent removable old).account same
      · exact belongs.last oldLast

theorem retract_fronted (hash : BlockHash) (account : Account) :
    (tables.retract record head before).frontiers.get? hash = some account ↔
      ∃ block, (tables.retract record head before).blocks.get? hash = some block ∧
        block.sideband.account = account ∧ block.block.kind.isLegacy ∧
        (tables.retract record head before).successors.get? hash = none := by
  have notHead := (removable_loose coherent removable).previous_ne removable.found
  rw [get?_frontiers_retract]
  by_cases isPrevious : hash = head.block.previous
  · subst isPrevious
    simp only [true_and, if_neg notHead, found_retract, last_retract, true_or, and_true]
    cases previousFound : tables.blocks.get? head.block.previous with
    | none =>
        simp [coherent.fronted, previousFound]
    | some previous =>
        have follows := removable_follows coherent removable previousFound
        by_cases legacy : previous.block.kind.isLegacy
        · simp [legacy, notHead, follows.account]
        · simp [legacy, coherent.fronted, previousFound]
  · rw [if_neg fun both => isPrevious both.1]
    by_cases isHead : hash = record.head
    · simp [isHead, found_retract]
    · simp [isHead, isPrevious, found_retract, last_retract, coherent.fronted]

/-! ### What waits to be received -/

/-- What the head received is the only thing that is not received any more. -/
theorem unreceived_retract {source : BlockHash} :
    Unreceived constants.genesis.hash (tables.retract record head before).blocks source ↔
      head.transfer = .receives source ∨
        Unreceived constants.genesis.hash tables.blocks source := by
  constructor
  · intro unreceived
    by_cases receives : head.transfer = .receives source
    · exact .inl receives
    · right
      intro hash block found notGenesis
      by_cases isHead : hash = record.head
      · subst isHead
        obtain rfl := Option.some.inj (removable.found.symm.trans found)
        exact receives
      · exact unreceived hash block (found_retract.mpr ⟨isHead, found⟩) notGenesis
  · intro released hash block found notGenesis isReceived
    obtain ⟨notHead, old⟩ := found_retract.mp found
    rcases released with receives | unreceived
    · exact notHead (coherent.once old removable.found notGenesis removable.notGenesis isReceived
        receives)
    · exact unreceived hash block old notGenesis isReceived

theorem waits_retract (key : ReceivableKey) (notHead : key.hash ≠ record.head)
    (notReceived : head.transfer ≠ .receives key.hash) (receivable : Receivable) :
    Waits constants.genesis.hash (tables.retract record head before).blocks key receivable ↔
      Waits constants.genesis.hash tables.blocks key receivable := by
  have loose := removable_loose coherent removable
  have same := retract_sameElsewhere tables record head before
  refine exists_congr fun send => ?_
  rw [same _ notHead]
  refine and_congr_right fun found => and_congr_right fun sends => and_congr ?_ ?_
  · rw [unreceived_retract coherent removable]
    exact or_iff_right notReceived
  · rw [same.sentAmount_eq (loose.previous_ne found)]

/-- What waits under the hash of the head was sent by it. -/
theorem head_sends {key : ReceivableKey} {receivable : Receivable}
    (waits : tables.receivables.get? key = some receivable) (isHead : key.hash = record.head) :
    head.transfer = .sends key.account := by
  obtain ⟨send, found, sends, -⟩ := (coherent.waiting _ _).mp waits
  rw [isHead] at found
  obtain rfl := Option.some.inj (removable.found.symm.trans found)
  exact sends

/-- What the head received is what its source sent. -/
theorem returned_eq {source : BlockHash} (receives : head.transfer = .receives source) :
    source ≠ record.head ∧ ∃ send, tables.blocks.get? source = some send ∧
      send.transfer = .sends head.sideband.account ∧
      returned tables.blocks head source
        = ⟨send.sideband.account, sentAmount tables.blocks send,
          send.sideband.details.epoch⟩ := by
  have settles := (removable_justified coherent removable).settles
  simp only [Settles, receives] at settles
  obtain ⟨send, found, sends, balance, epoch⟩ := settles
  refine ⟨?_, send, found, sends, ?_⟩
  · rintro rfl
    obtain rfl := Option.some.inj (removable.found.symm.trans found)
    simp [receives] at sends
  · have amount : head.sideband.balance.wrappingSub (balanceBefore tables.blocks head)
        = sentAmount tables.blocks send := by
      ext
      rw [Amount.toNat_wrappingSub (by omega), balance]
      omega
    unfold returned
    rw [found, amount, epoch]
    rfl

/-- What the head received does not wait while it is received. -/
theorem received_absent {source : BlockHash} (receives : head.transfer = .receives source)
    (account : Account) : tables.receivables.get? ⟨account, source⟩ = none := by
  cases waits : tables.receivables.get? ⟨account, source⟩ with
  | none => rfl
  | some receivable =>
      obtain ⟨send, -, -, unreceived, -⟩ := (coherent.waiting _ _).mp waits
      exact absurd receives (unreceived _ _ removable.found removable.notGenesis)

theorem waits_retract_of_received (key : ReceivableKey)
    (receives : head.transfer = .receives key.hash) (receivable : Receivable) :
    Waits constants.genesis.hash (tables.retract record head before).blocks key receivable ↔
      key.account = head.sideband.account ∧
        receivable = returned tables.blocks head key.hash := by
  obtain ⟨notHead, send, found, sends, isReturned⟩ := returned_eq coherent removable receives
  have loose := removable_loose coherent removable
  have same := retract_sameElsewhere tables record head before
  have amount := same.sentAmount_eq (loose.previous_ne found)
  constructor
  · rintro ⟨other, otherFound, otherSends, -, rfl⟩
    rw [same _ notHead, found] at otherFound
    obtain rfl := Option.some.inj otherFound
    refine ⟨Transfer.sends.inj (otherSends.symm.trans sends), ?_⟩
    rw [isReturned, amount]
  · rintro ⟨owner, rfl⟩
    refine ⟨send, (same _ notHead).trans found, owner ▸ sends, ?_, ?_⟩
    · exact (unreceived_retract coherent removable).mpr (.inl receives)
    · rw [isReturned, amount]

theorem retract_waiting (key : ReceivableKey) (receivable : Receivable) :
    (tables.retract record head before).receivables.get? key = some receivable ↔
      Waits constants.genesis.hash (tables.retract record head before).blocks key receivable := by
  by_cases isHead : key.hash = record.head
  · refine iff_of_false (fun waits => ?_) ?_
    · unfold retract at waits
      cases transfer : head.transfer with
      | sends destination =>
          simp only [transfer, Table.get?_erase] at waits
          split at waits
          · simp at waits
          · next different =>
              have sends := head_sends coherent removable waits isHead
              rw [transfer, Transfer.sends.injEq] at sends
              exact different (by rw [sends, ← isHead])
      | receives source =>
          obtain ⟨notHead, -⟩ := returned_eq coherent removable transfer
          have different : key ≠ ⟨head.sideband.account, source⟩ := by
            rintro rfl
            exact notHead isHead
          simp only [transfer, Table.get?_insert_of_ne _ different] at waits
          have sends := head_sends coherent removable waits isHead
          simp [transfer] at sends
      | neither =>
          simp only [transfer] at waits
          have sends := head_sends coherent removable waits isHead
          simp [transfer] at sends
    · rintro ⟨send, found, -⟩
      exact (found_retract.mp found).1 isHead
  · by_cases isReceived : head.transfer = .receives key.hash
    · rw [waits_retract_of_received coherent removable key isReceived]
      have absent := received_absent coherent removable isReceived key.account
      unfold retract
      simp only [isReceived]
      by_cases isOwner : key.account = head.sideband.account
      · have isKey : key = ⟨head.sideband.account, key.hash⟩ := by rw [← isOwner]
        rw [← isKey, Table.get?_insert_self]
        simp [isOwner, eq_comm]
      · have different : key ≠ ⟨head.sideband.account, key.hash⟩ :=
          fun same => isOwner (congrArg ReceivableKey.account same)
        rw [Table.get?_insert_of_ne _ different]
        exact iff_of_false (by simp [absent]) fun both => isOwner both.1
    · rw [waits_retract coherent removable key isHead isReceived, ← coherent.waiting]
      unfold retract
      cases transfer : head.transfer with
      | sends destination =>
          have different : key ≠ ⟨destination, record.head⟩ := by
            rintro rfl
            exact isHead rfl
          simp only [Table.get?_erase_of_ne _ different]
      | receives source =>
          have different : key ≠ ⟨head.sideband.account, source⟩ := by
            rintro rfl
            exact isReceived transfer
          simp only [Table.get?_insert_of_ne _ different]
      | neither => rfl

/-! ### Weights and supply -/

theorem retract_moved (precedes : Precedes tables.blocks record head before)
    (representative : Account) :
    (tables.retract record head before).delegated representative
        + (portion (some (votes tables.blocks record)) representative).toNat
      = tables.delegated representative
        + (portion (before.map (votes tables.blocks)) representative).toNat := by
  have same := retract_sameElsewhere tables record head before
  have others : (tables.retract record head before).delegated representative
      = (tables.retract record head before).accounts.total
          (delegation tables.blocks representative) :=
    Table.total_congr fun account other owned => by
      obtain ⟨last, recorded⟩ := retract_recorded coherent removable precedes owned
      obtain ⟨naming, -, namingFound, -⟩ := recorded.representative.names
      unfold delegation
      rw [same.representativeOf_eq (found_retract.mp namingFound).1]
  have lost : (portion (some (votes tables.blocks record)) representative).toNat
      = tables.accounts.share (delegation tables.blocks representative) head.sideband.account := by
    rw [(removable_recorded coherent removable).portion_votes, Table.share_of_some removable.owned]
  rw [others, lost]
  cases precedes with
  | first => exact Table.total_erase _ _ _
  | @later previous naming previousFound named =>
      obtain ⟨block, leader, found, names⟩ := named.names
      have leads : representativeOf tables.blocks
          (record.backTo head.block.previous naming previous) = some leader := by
        change (tables.blocks.get? naming).bind _ = _
        rw [found]
        exact names
      rw [Option.map_some, portion_votes leads head.sideband.account]
      exact Table.total_insert _ _ _ _

theorem retract_weighed (precedes : Precedes tables.blocks record head before)
    (representative : Account) :
    (tables.retract record head before).weight representative
      = .ofNat ((tables.retract record head before).delegated representative) :=
  weight_reweigh_of_moved _ _ (coherent.weighed representative)
    (retract_moved coherent removable precedes representative)

variable (before) in
/-- What the account gets back does not wait any more, and what it gives back waits again. -/
theorem retract_receivables :
    (tables.retract record head before).receivables.total
          (fun _ receivable => receivable.amount.toNat)
        + (balanceBefore tables.blocks head).toNat
      = tables.receivables.total (fun _ receivable => receivable.amount.toNat)
        + head.sideband.balance.toNat := by
  have settles := (removable_justified coherent removable).settles
  unfold retract
  cases transfer : head.transfer with
  | sends destination =>
      simp only [Settles, transfer] at settles ⊢
      have covered := settles.2.1
      have waits : tables.receivables.get? ⟨destination, record.head⟩
          = some ⟨head.sideband.account, sentAmount tables.blocks head,
            head.sideband.details.epoch⟩ :=
        (coherent.waiting _ _).mpr ⟨head, removable.found, transfer, removable.unreceived, rfl⟩
      have erased := Table.total_erase (fun _ receivable => receivable.amount.toNat)
        tables.receivables ⟨destination, record.head⟩
      rw [Table.share_of_some waits] at erased
      have amount : (sentAmount tables.blocks head).toNat = _ := Amount.toNat_wrappingSub covered
      simp only at erased
      omega
  | receives source =>
      simp only [Settles, transfer] at settles ⊢
      obtain ⟨send, found, -, balance, -⟩ := settles
      have inserted := Table.total_insert (fun _ receivable => receivable.amount.toNat)
        tables.receivables ⟨head.sideband.account, source⟩ (returned tables.blocks head source)
      rw [Table.share_of_none (received_absent coherent removable transfer _)] at inserted
      have amount : (returned tables.blocks head source).amount.toNat = _ :=
        Amount.toNat_wrappingSub (balance ▸ Nat.le_add_right _ _)
      omega
  | neither =>
      simp only [Settles, transfer] at settles ⊢
      rw [settles.1]

theorem retract_balances (precedes : Precedes tables.blocks record head before) :
    (tables.retract record head before).accounts.total (fun _ record => record.balance.toNat)
        + head.sideband.balance.toNat
      = tables.accounts.total (fun _ record => record.balance.toNat)
        + (balanceBefore tables.blocks head).toNat := by
  have lost : head.sideband.balance.toNat
      = tables.accounts.share (fun _ record => record.balance.toNat) head.sideband.account := by
    rw [Table.share_of_some removable.owned, (removable_recorded coherent removable).balance]
  rw [lost]
  unfold balanceBefore
  cases precedes with
  | first isFirst =>
      rw [isFirst, zero_absent coherent]
      exact Table.total_erase _ _ _
  | later previousFound =>
      rw [previousFound]
      exact Table.total_insert _ _ _ _

theorem retract_conserved (precedes : Precedes tables.blocks record head before) :
    (tables.retract record head before).supply = constants.genesisAmount.toNat := by
  have balances := retract_balances coherent removable precedes
  have receivables := retract_receivables before coherent removable
  have conserved := coherent.conserved
  unfold supply at conserved ⊢
  omega

include sound in
/-- A coherent ledger stays coherent when the head of a chain is taken away. -/
theorem retract (precedes : Precedes tables.blocks record head before) :
    Coherent constants (tables.retract record head before) where
  keyed := retract_keyed coherent
  genesis := retract_genesis coherent removable
  justified := retract_justified coherent removable
  once := retract_once coherent
  ranked := retract_ranked coherent
  linked := retract_linked coherent removable
  recorded := retract_recorded coherent removable precedes
  belongs := retract_belongs coherent sound removable precedes
  fronted := retract_fronted coherent removable
  waiting := retract_waiting coherent removable
  weighed := retract_weighed coherent removable precedes
  tidy := coherent.tidy.reweigh _ _
  conserved := retract_conserved coherent removable precedes

end Preservation

end Coherent

end Tables

end AccountChains
