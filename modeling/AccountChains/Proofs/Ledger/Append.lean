import AccountChains.Proofs.Ledger.Frame

/-!
Contract: adding a block to the end of a chain.

Whatever its kind, a block that is taken in does the same to the tables: it
becomes the head of its account, it opens or closes what waits to be received,
and it moves the weight of its account. `Admissible` says which blocks may be
added; a coherent ledger stays coherent when such a block is.

Owns: `append`, `Admissible`, and the preservation of `Coherent`. Does not own:
which offered blocks are admissible, or how each kind is written.
-/

namespace AccountChains

open BlockTable

/-- The record of an account after a block, given the record before it. -/
def AccountRecord.after (before : Option AccountRecord) (stored : StoredBlock) :
    AccountRecord where
  head := stored.hash
  representativeBlock :=
    if stored.block.representative?.isSome then stored.hash
    else (before.map AccountRecord.representativeBlock).getD .zero
  openBlock := (before.map AccountRecord.openBlock).getD stored.hash
  balance := stored.sideband.balance
  modified := stored.sideband.timestamp
  blockCount := stored.sideband.height
  epoch := stored.sideband.details.epoch

section After

variable (record : AccountRecord) (stored : StoredBlock)

theorem AccountRecord.openBlock_after_none : (after none stored).openBlock = stored.hash := rfl

theorem AccountRecord.openBlock_after_some :
    (after (some record) stored).openBlock = record.openBlock := by
  simp only [after, Option.map_some, Option.getD_some]

theorem AccountRecord.representativeBlock_after_of_names (before : Option AccountRecord)
    (names : stored.block.representative?.isSome) :
    (after before stored).representativeBlock = stored.hash := if_pos names

theorem AccountRecord.representativeBlock_after_of_silent
    (silent : ¬ stored.block.representative?.isSome) :
    (after (some record) stored).representativeBlock = record.representativeBlock := by
  simp only [after, if_neg silent, Option.map_some, Option.getD_some]

end After

namespace Tables

/-- Add a block to the end of the chain that its sideband names. -/
def append (tables : Tables) (stored : StoredBlock) : Tables :=
  let account := stored.sideband.account
  let before := tables.accounts.get? account
  let record := AccountRecord.after before stored
  let blocks := tables.blocks.insert stored.hash stored
  let others := tables.frontiers.erase stored.block.previous
  { tables with
    accounts := tables.accounts.insert account record
    blocks
    successors :=
      if stored.block.previous.isZero then tables.successors
      else tables.successors.insert stored.block.previous stored.hash
    receivables :=
      match stored.transfer with
      | .sends destination => tables.receivables.insert ⟨destination, stored.hash⟩
          ⟨account, sentAmount tables.blocks stored, stored.sideband.details.epoch⟩
      | .receives source => tables.receivables.erase ⟨account, source⟩
      | .neither => tables.receivables
    frontiers := if stored.block.kind.isLegacy then others.insert stored.hash account else others
    weights :=
      (tables.reweigh (before.map (votes tables.blocks)) (some (votes blocks record))).weights }

/-- The chain of an account goes on with a block, or starts with it. -/
inductive Placed (tables : Tables) (stored : StoredBlock) : Prop where
  | first (absent : tables.accounts.get? stored.sideband.account = none)
      (previous : stored.block.previous = .zero)
  | next {record : AccountRecord}
      (found : tables.accounts.get? stored.sideband.account = some record)
      (previous : stored.block.previous = record.head)

/-- A block with its sideband may be added to a ledger. -/
structure Admissible (tables : Tables) (stored : StoredBlock) : Prop where
  fresh : tables.blocks.get? stored.hash = none
  named : stored.hash ≠ .zero
  placed : Placed tables stored
  justified : Justified tables.blocks stored
  waiting : ∀ source, stored.transfer = .receives source →
    ∃ receivable, tables.receivables.get? ⟨stored.sideband.account, source⟩ = some receivable

section Lookups

variable {tables : Tables} {stored block : StoredBlock} {hash : BlockHash}

theorem found_append : (tables.append stored).blocks.get? hash = some block ↔
    hash = stored.hash ∧ block = stored ∨
      hash ≠ stored.hash ∧ tables.blocks.get? hash = some block := by
  change (tables.blocks.insert stored.hash stored).get? hash = some block ↔ _
  by_cases same : hash = stored.hash
  · subst same
    simp [eq_comm]
  · simp [Table.get?_insert_of_ne _ same, same]

variable (tables stored) in
theorem append_sameElsewhere :
    SameElsewhere stored.hash tables.blocks (tables.append stored).blocks :=
  sameElsewhere_insert _ _ _

theorem found_append_of_found (fresh : tables.blocks.get? stored.hash = none)
    (found : tables.blocks.get? hash = some block) :
    (tables.append stored).blocks.get? hash = some block := by
  refine found_append.mpr (.inr ⟨?_, found⟩)
  rintro rfl
  simp [fresh] at found

theorem contains_append : (tables.append stored).blocks.contains hash ↔
    hash = stored.hash ∨ tables.blocks.contains hash := by
  change (tables.blocks.insert stored.hash stored).contains hash ↔ _
  unfold Table.contains
  rw [Table.get?_insert]
  split <;> simp_all

theorem get?_successors_append :
    (tables.append stored).successors.get? hash
      = if stored.block.previous ≠ .zero ∧ hash = stored.block.previous then some stored.hash
        else tables.successors.get? hash := by
  unfold append
  by_cases isZero : stored.block.previous = .zero
  · simp [isZero]
  · have notZero : stored.block.previous.isZero = false := by simpa using isZero
    simp [isZero, notZero, Table.get?_insert]

theorem get?_frontiers_append :
    (tables.append stored).frontiers.get? hash
      = if stored.block.kind.isLegacy ∧ hash = stored.hash then some stored.sideband.account
        else if hash = stored.block.previous then none else tables.frontiers.get? hash := by
  unfold append
  by_cases legacy : stored.block.kind.isLegacy
  · simp [legacy, Table.get?_insert, Table.get?_erase]
  · simp [legacy, Table.get?_erase]

end Lookups

namespace Admissible

variable {tables : Tables} {stored : StoredBlock} (admissible : Admissible tables stored)

include admissible

theorem previous_ne : stored.block.previous ≠ stored.hash := by
  intro same
  have later : stored.block.previous ≠ .zero := same ▸ admissible.named
  obtain ⟨before, beforeFound⟩ := admissible.justified.previous_found later
  rw [same, admissible.fresh] at beforeFound
  simp at beforeFound

theorem receives_ne : stored.transfer ≠ .receives stored.hash := by
  intro receives
  obtain ⟨send, sendFound⟩ := admissible.justified.source_found receives
  simp [admissible.fresh] at sendFound

theorem ne_of_found {hash : BlockHash} {block : StoredBlock}
    (found : tables.blocks.get? hash = some block) : hash ≠ stored.hash := by
  rintro rfl
  simp [admissible.fresh] at found

end Admissible

namespace Coherent

variable {constants : LedgerConstants} {tables : Tables} {stored : StoredBlock}
  (coherent : Coherent constants tables) (sound : constants.Sound)
  (admissible : Admissible tables stored)

section Facts

include coherent admissible

theorem fresh_ne_genesis : stored.hash ≠ constants.genesis.hash := by
  obtain ⟨now, found⟩ := coherent.genesis
  exact (admissible.ne_of_found found).symm

include sound in
theorem fresh_loose : Loose constants.genesis.hash tables.blocks stored.hash := by
  rintro dependent ⟨block, found, previous | ⟨notGenesis, receives⟩⟩
  · have later : block.block.previous ≠ .zero := previous ▸ admissible.named
    obtain ⟨before, beforeFound, -⟩ := later_block coherent sound found later
    exact admissible.ne_of_found beforeFound previous
  · obtain ⟨send, sendFound⟩ := (coherent.justified found notGenesis).source_found receives
    exact admissible.ne_of_found sendFound rfl

/-- The head of the account, if there is one, comes before the block. -/
theorem previous_head {record : AccountRecord}
    (found : tables.accounts.get? stored.sideband.account = some record) :
    stored.block.previous = record.head ∧
      ∃ head, tables.Recorded stored.sideband.account record head := by
  obtain ⟨head, recorded⟩ := coherent.recorded found
  refine ⟨?_, head, recorded⟩
  cases admissible.placed with
  | first absent => simp [absent] at found
  | next otherFound previous =>
      obtain rfl := Option.some.inj (found.symm.trans otherFound)
      exact previous

omit coherent in
theorem previous_zero (absent : tables.accounts.get? stored.sideband.account = none) :
    stored.block.previous = .zero := by
  cases admissible.placed with
  | first _ previous => exact previous
  | next found => simp [absent] at found

theorem balanceBefore_eq : balanceBefore tables.blocks stored
    = ((tables.accounts.get? stored.sideband.account).map AccountRecord.balance).getD .zero := by
  unfold balanceBefore
  cases found : tables.accounts.get? stored.sideband.account with
  | none => simp [previous_zero admissible found, zero_absent coherent]
  | some record =>
      obtain ⟨previous, head, recorded⟩ := previous_head coherent admissible found
      simp [previous, recorded.found, recorded.balance]

end Facts

section Preservation

include coherent admissible

theorem append_keyed {hash : BlockHash} {block : StoredBlock}
    (found : (tables.append stored).blocks.get? hash = some block) :
    block.hash = hash ∧ hash ≠ .zero := by
  rcases found_append.mp found with ⟨rfl, rfl⟩ | ⟨-, old⟩
  · exact ⟨rfl, admissible.named⟩
  · exact coherent.keyed old

theorem append_genesis : ∃ now, (tables.append stored).blocks.get? constants.genesis.hash
    = some ⟨constants.genesis,
      Ledger.legacySideband constants.genesisAccount 1 constants.genesisAmount now⟩ := by
  obtain ⟨now, found⟩ := coherent.genesis
  exact ⟨now, found_append_of_found admissible.fresh found⟩

include sound

theorem append_justified {hash : BlockHash} {block : StoredBlock}
    (found : (tables.append stored).blocks.get? hash = some block)
    (notGenesis : hash ≠ constants.genesis.hash) :
    Justified (tables.append stored).blocks block := by
  have loose := fresh_loose coherent sound admissible
  rcases found_append.mp found with ⟨rfl, rfl⟩ | ⟨-, old⟩
  · exact admissible.justified.elsewhere (append_sameElsewhere _ _) loose admissible.previous_ne
      admissible.receives_ne
  · exact (coherent.justified old notGenesis).elsewhere (append_sameElsewhere _ _) loose
      (loose.previous_ne old) (loose.unreceived hash block old notGenesis)

omit sound in
/-- What waits under a source that the block receives is received by no block before. -/
theorem append_unreceived {source : BlockHash} (receives : stored.transfer = .receives source) :
    Unreceived constants.genesis.hash tables.blocks source := by
  obtain ⟨receivable, found⟩ := admissible.waiting source receives
  obtain ⟨send, -, -, unreceived, -⟩ := (coherent.waiting _ _).mp found
  exact unreceived

omit sound in
theorem append_once {hash other source : BlockHash} {block found : StoredBlock}
    (hashFound : (tables.append stored).blocks.get? hash = some block)
    (otherFound : (tables.append stored).blocks.get? other = some found)
    (hashNotGenesis : hash ≠ constants.genesis.hash)
    (otherNotGenesis : other ≠ constants.genesis.hash)
    (hashReceives : block.transfer = .receives source)
    (otherReceives : found.transfer = .receives source) : hash = other := by
  rcases found_append.mp hashFound with ⟨rfl, rfl⟩ | ⟨-, hashOld⟩ <;>
    rcases found_append.mp otherFound with ⟨rfl, rfl⟩ | ⟨-, otherOld⟩
  · rfl
  · exact absurd otherReceives
      (append_unreceived coherent admissible hashReceives other found otherOld otherNotGenesis)
  · exact absurd hashReceives
      (append_unreceived coherent admissible otherReceives hash block hashOld hashNotGenesis)
  · exact coherent.once hashOld otherOld hashNotGenesis otherNotGenesis hashReceives otherReceives

/-- Nothing builds on the new block. -/
theorem append_loose :
    Loose constants.genesis.hash (tables.append stored).blocks stored.hash := by
  rintro dependent ⟨block, found, depends⟩
  rcases found_append.mp found with ⟨-, rfl⟩ | ⟨-, old⟩
  · rcases depends with previous | ⟨-, receives⟩
    · exact admissible.previous_ne previous
    · exact admissible.receives_ne receives
  · exact fresh_loose coherent sound admissible dependent ⟨block, old, depends⟩

theorem append_ranked :
    ∃ rank, Ranked constants.genesis.hash (tables.append stored).blocks rank := by
  obtain ⟨rank, ranked⟩ := coherent.ranked
  have loose := fresh_loose coherent sound admissible
  let source := match stored.transfer with
    | .receives source => source
    | .sends _ | .neither => .zero
  -- The new block goes above its dependencies; nothing depends on it.
  refine ⟨Function.update rank stored.hash (rank stored.block.previous + rank source + 1), ?_⟩
  rintro hash dependency ⟨block, found, depends⟩
  rcases found_append.mp found with ⟨rfl, rfl⟩ | ⟨notNew, old⟩
  · rw [Function.update_self]
    rcases depends with rfl | ⟨-, receives⟩
    · rw [Function.update_of_ne admissible.previous_ne]
      omega
    · have notNew : dependency ≠ block.hash :=
        fun same => admissible.receives_ne (same ▸ receives)
      have isSource : source = dependency := by simp [source, receives]
      rw [Function.update_of_ne notNew, isSource]
      omega
  · have dependsOld : DependsOn constants.genesis.hash tables.blocks hash dependency :=
      ⟨block, old, depends⟩
    have notDependency : dependency ≠ stored.hash := fun same => loose hash (same ▸ dependsOld)
    rw [Function.update_of_ne notNew, Function.update_of_ne notDependency]
    exact ranked hash dependency dependsOld

omit sound in
/-- The head of a chain has no successor. -/
theorem previous_last (later : stored.block.previous ≠ .zero) :
    tables.successors.get? stored.block.previous = none := by
  cases placed : tables.accounts.get? stored.sideband.account with
  | none => exact absurd (previous_zero admissible placed) later
  | some record =>
      obtain ⟨previous, head, recorded⟩ := previous_head coherent admissible placed
      rw [previous]
      exact recorded.last

omit sound in
theorem append_linked (previous hash : BlockHash) :
    (tables.append stored).successors.get? previous = some hash ↔
      previous ≠ .zero ∧ ∃ block, (tables.append stored).blocks.get? hash = some block ∧
        block.block.previous = previous := by
  rw [get?_successors_append]
  split
  · next isPrevious =>
      obtain ⟨later, rfl⟩ := isPrevious
      constructor
      · rintro isNew
        obtain rfl := Option.some.inj isNew
        exact ⟨later, stored, found_append.mpr (.inl ⟨rfl, rfl⟩), rfl⟩
      · rintro ⟨-, block, found, same⟩
        rcases found_append.mp found with ⟨rfl, -⟩ | ⟨-, old⟩
        · rfl
        · have linked := (coherent.linked _ hash).mpr ⟨later, block, old, same⟩
          rw [previous_last coherent admissible later] at linked
          simp at linked
  · next notPrevious =>
      rw [coherent.linked]
      refine and_congr_right fun notZero => exists_congr fun block => ?_
      constructor
      · rintro ⟨old, same⟩
        exact ⟨found_append_of_found admissible.fresh old, same⟩
      · rintro ⟨found, same⟩
        rcases found_append.mp found with ⟨rfl, rfl⟩ | ⟨-, old⟩
        · exact absurd ⟨same ▸ notZero, same.symm⟩ notPrevious
        · exact ⟨old, same⟩

theorem fresh_last : (tables.append stored).successors.get? stored.hash = none := by
  rw [get?_successors_append, if_neg fun isPrevious => admissible.previous_ne isPrevious.2.symm]
  cases linked : tables.successors.get? stored.hash with
  | none => rfl
  | some next =>
      obtain ⟨-, block, found, previous⟩ := (coherent.linked _ _).mp linked
      exact absurd previous ((fresh_loose coherent sound admissible).previous_ne found)

omit admissible sound in
/-- A block stays the last one of its chain unless the new block comes after it. -/
theorem last_append {hash : BlockHash} {block : StoredBlock}
    (found : tables.blocks.get? hash = some block) :
    (tables.append stored).successors.get? hash = none ↔
      hash ≠ stored.block.previous ∧ tables.successors.get? hash = none := by
  have notZero := (coherent.keyed found).2
  rw [get?_successors_append]
  by_cases same : hash = stored.block.previous
  · rw [if_pos ⟨same ▸ notZero, same⟩]
    simp [same]
  · rw [if_neg fun isPrevious => same isPrevious.2]
    simp [same]

theorem recorded_after : Recorded (tables.append stored) stored.sideband.account
    (AccountRecord.after (tables.accounts.get? stored.sideband.account) stored) stored where
  found := found_append.mpr (.inl ⟨rfl, rfl⟩)
  account := rfl
  last := fresh_last coherent sound admissible
  balance := rfl
  modified := rfl
  blockCount := rfl
  epoch := rfl
  opening := by
    cases placed : tables.accounts.get? stored.sideband.account with
    | none =>
        rw [AccountRecord.openBlock_after_none]
        exact ⟨stored, found_append.mpr (.inl ⟨rfl, rfl⟩), rfl, previous_zero admissible placed⟩
    | some record =>
        obtain ⟨-, head, recorded⟩ := previous_head coherent admissible placed
        obtain ⟨first, firstFound, owner, isFirst⟩ := recorded.opening
        rw [AccountRecord.openBlock_after_some]
        exact ⟨first, found_append_of_found admissible.fresh firstFound, owner, isFirst⟩
  representative := by
    have newFound : (tables.append stored).blocks.get? stored.hash = some stored :=
      found_append.mpr (.inl ⟨rfl, rfl⟩)
    by_cases names : stored.block.representative?.isSome
    · rw [AccountRecord.representativeBlock_after_of_names _ _ names]
      exact .here newFound names
    · -- A block that names no representative has a predecessor, which leads to one.
      cases placed : tables.accounts.get? stored.sideband.account with
      | none =>
          exact absurd (admissible.justified.first (previous_zero admissible placed)).2 names
      | some record =>
          obtain ⟨previous, head, recorded⟩ := previous_head coherent admissible placed
          have rest := recorded.representative.elsewhere (append_sameElsewhere _ _)
            (fresh_loose coherent sound admissible) (admissible.ne_of_found recorded.found)
          rw [← previous] at rest
          rw [AccountRecord.representativeBlock_after_of_silent _ _ names]
          exact .earlier newFound (by simpa using names) rest

theorem append_recorded {account : Account} {record : AccountRecord}
    (found : (tables.append stored).accounts.get? account = some record) :
    ∃ head, Recorded (tables.append stored) account record head := by
  change (tables.accounts.insert _ _).get? account = some record at found
  by_cases same : account = stored.sideband.account
  · subst same
    rw [Table.get?_insert_self] at found
    obtain rfl := Option.some.inj found
    exact ⟨stored, recorded_after coherent sound admissible⟩
  · rw [Table.get?_insert_of_ne _ same] at found
    obtain ⟨head, recorded⟩ := coherent.recorded found
    obtain ⟨first, firstFound, owner, isFirst⟩ := recorded.opening
    -- The new block comes after a block of another account.
    have notPrevious : record.head ≠ stored.block.previous := by
      intro isPrevious
      have later : stored.block.previous ≠ .zero :=
        isPrevious ▸ (coherent.keyed recorded.found).2
      obtain ⟨before, beforeFound, follows⟩ := admissible.justified.follows later
      rw [← isPrevious, recorded.found] at beforeFound
      obtain rfl := Option.some.inj beforeFound
      exact same (recorded.account.symm.trans follows.account)
    exact ⟨head, {
      found := found_append_of_found admissible.fresh recorded.found
      account := recorded.account
      last := (last_append coherent recorded.found).mpr ⟨notPrevious, recorded.last⟩
      balance := recorded.balance
      modified := recorded.modified
      blockCount := recorded.blockCount
      epoch := recorded.epoch
      opening := ⟨first, found_append_of_found admissible.fresh firstFound, owner, isFirst⟩
      representative := recorded.representative.elsewhere (append_sameElsewhere _ _)
        (fresh_loose coherent sound admissible) (admissible.ne_of_found recorded.found) }⟩

omit sound in
theorem append_belongs {hash : BlockHash} {block : StoredBlock}
    (found : (tables.append stored).blocks.get? hash = some block) :
    ∃ record, Belongs (tables.append stored) hash block record := by
  rcases found_append.mp found with ⟨rfl, rfl⟩ | ⟨notNew, old⟩
  · refine ⟨_, Table.get?_insert_self _ _ _, le_rfl, fun _ => rfl, fun first => ?_⟩
    cases placed : tables.accounts.get? block.sideband.account with
    | none => exact AccountRecord.openBlock_after_none block
    | some record =>
        obtain ⟨previous, head, recorded⟩ := previous_head coherent admissible placed
        exact absurd (previous.symm.trans first) (coherent.keyed recorded.found).2
  · obtain ⟨record, belongs⟩ := coherent.belongs old
    by_cases same : block.sideband.account = stored.sideband.account
    · have placed := same ▸ belongs.found
      obtain ⟨previous, head, recorded⟩ := previous_head coherent admissible placed
      have later : stored.block.previous ≠ .zero := previous ▸ (coherent.keyed recorded.found).2
      obtain ⟨before, beforeFound, follows⟩ := admissible.justified.follows later
      rw [previous, recorded.found] at beforeFound
      obtain rfl := Option.some.inj beforeFound
      refine ⟨.after (some record) stored, ?_, ?_, ?_, ?_⟩
      · rw [same, ← placed]
        exact Table.get?_insert_self _ _ _
      · have below := belongs.height
        have oneHigher := follows.height
        rw [recorded.blockCount] at below
        simp only [AccountRecord.after]
        omega
      · intro last
        obtain ⟨notPrevious, oldLast⟩ := (last_append coherent old).mp last
        exact absurd ((belongs.last oldLast).symm.trans previous.symm) notPrevious
      · intro first
        rw [AccountRecord.openBlock_after_some]
        exact belongs.first first
    · refine ⟨record, ?_, belongs.height, ?_, belongs.first⟩
      · rw [← belongs.found]
        exact Table.get?_insert_of_ne _ same _
      · exact fun last => belongs.last ((last_append coherent old).mp last).2

theorem append_fronted (hash : BlockHash) (account : Account) :
    (tables.append stored).frontiers.get? hash = some account ↔
      ∃ block, (tables.append stored).blocks.get? hash = some block ∧
        block.sideband.account = account ∧ block.block.kind.isLegacy ∧
        (tables.append stored).successors.get? hash = none := by
  rw [get?_frontiers_append]
  by_cases isNew : hash = stored.hash
  · subst isNew
    have newFound : (tables.append stored).blocks.get? stored.hash = some stored :=
      found_append.mpr (.inl ⟨rfl, rfl⟩)
    have absent : tables.frontiers.get? stored.hash = none := by
      cases fronted : tables.frontiers.get? stored.hash with
      | none => rfl
      | some owner =>
          obtain ⟨block, found, -⟩ := (coherent.fronted _ _).mp fronted
          exact absurd rfl (admissible.ne_of_found found)
    simp [newFound, absent, fresh_last coherent sound admissible, and_comm]
  · have found_iff (block : StoredBlock) :
        (tables.append stored).blocks.get? hash = some block ↔
          tables.blocks.get? hash = some block := by
      simp [found_append, isNew]
    simp only [isNew, and_false, if_false, found_iff]
    by_cases isPrevious : hash = stored.block.previous
    · simp only [isPrevious, if_true]
      refine iff_of_false (by simp) ?_
      rintro ⟨block, found, -, -, last⟩
      exact ((last_append coherent found).mp last).1 rfl
    · rw [if_neg isPrevious, coherent.fronted]
      refine exists_congr fun block => and_congr_right fun found => ?_
      rw [last_append coherent found]
      simp [isPrevious]

/-! ### What waits to be received -/

theorem waits_append_new (key : ReceivableKey) (isNew : key.hash = stored.hash)
    (receivable : Receivable) :
    Waits constants.genesis.hash (tables.append stored).blocks key receivable ↔
      stored.transfer = .sends key.account ∧
        receivable = ⟨stored.sideband.account, sentAmount tables.blocks stored,
          stored.sideband.details.epoch⟩ := by
  have loose := fresh_loose coherent sound admissible
  have newFound : (tables.append stored).blocks.get? stored.hash = some stored :=
    found_append.mpr (.inl ⟨rfl, rfl⟩)
  have amount := (append_sameElsewhere tables stored).sentAmount_eq admissible.previous_ne
  unfold Waits
  rw [isNew]
  constructor
  · rintro ⟨send, found, sends, -, rfl⟩
    obtain rfl := Option.some.inj (newFound.symm.trans found)
    exact ⟨sends, by rw [amount]⟩
  · rintro ⟨sends, rfl⟩
    refine ⟨stored, newFound, sends, ?_, by rw [amount]⟩
    intro hash block found notGenesis
    rcases found_append.mp found with ⟨-, rfl⟩ | ⟨-, old⟩
    · exact admissible.receives_ne
    · exact loose.unreceived hash block old notGenesis

theorem waits_append_old (key : ReceivableKey) (notNew : key.hash ≠ stored.hash)
    (receivable : Receivable) :
    Waits constants.genesis.hash (tables.append stored).blocks key receivable ↔
      stored.transfer ≠ .receives key.hash ∧
        Waits constants.genesis.hash tables.blocks key receivable := by
  have loose := fresh_loose coherent sound admissible
  have same := append_sameElsewhere tables stored
  constructor
  · rintro ⟨send, found, sends, unreceived, rfl⟩
    have old := (same _ notNew).symm.trans found
    refine ⟨unreceived _ _ (found_append.mpr (.inl ⟨rfl, rfl⟩))
      (fresh_ne_genesis coherent admissible), send, old, sends, ?_, ?_⟩
    · exact fun hash block blockFound =>
        unreceived hash block (found_append_of_found admissible.fresh blockFound)
    · rw [same.sentAmount_eq (loose.previous_ne old)]
  · rintro ⟨notReceived, send, old, sends, unreceived, rfl⟩
    refine ⟨send, (same _ notNew).trans old, sends, ?_, ?_⟩
    · intro hash block found notGenesis
      rcases found_append.mp found with ⟨-, rfl⟩ | ⟨-, blockFound⟩
      · exact notReceived
      · exact unreceived hash block blockFound notGenesis
    · rw [same.sentAmount_eq (loose.previous_ne old)]

omit sound in
theorem fresh_not_waiting (key : ReceivableKey) (isNew : key.hash = stored.hash) :
    tables.receivables.get? key = none := by
  cases waits : tables.receivables.get? key with
  | none => rfl
  | some receivable =>
      obtain ⟨send, found, -⟩ := (coherent.waiting _ _).mp waits
      exact absurd isNew (admissible.ne_of_found found)

theorem append_waiting (key : ReceivableKey) (receivable : Receivable) :
    (tables.append stored).receivables.get? key = some receivable ↔
      Waits constants.genesis.hash (tables.append stored).blocks key receivable := by
  by_cases isNew : key.hash = stored.hash
  · rw [waits_append_new coherent sound admissible key isNew]
    have absent := fresh_not_waiting coherent admissible key isNew
    obtain ⟨account, hash⟩ := key
    obtain rfl : hash = stored.hash := isNew
    unfold append
    cases transfer : stored.transfer with
    | sends destination =>
        simp only [Transfer.sends.injEq, Table.get?_insert, ReceivableKey.mk.injEq, and_true]
        by_cases same : account = destination
        · simp [same, eq_comm]
        · simp [same, absent, Ne.symm same]
    | receives source => simp [Table.get?_erase, absent]
    | neither => simp [absent]
  · rw [waits_append_old coherent sound admissible key isNew, ← coherent.waiting]
    unfold append
    cases transfer : stored.transfer with
    | sends destination =>
        have different : key ≠ ⟨destination, stored.hash⟩ := fun same => isNew (same ▸ rfl)
        simp [Table.get?_insert_of_ne _ different]
    | neither => simp
    | receives source =>
        simp only [ne_eq, Transfer.receives.injEq]
        by_cases isSource : source = key.hash
        · -- The source waits for the account of the block and for no other.
          refine iff_of_false (fun waits => ?_) (by simp [isSource])
          rw [Table.get?_erase] at waits
          split at waits
          · simp at waits
          · next different =>
              obtain ⟨received, found⟩ := admissible.waiting source transfer
              obtain ⟨send, sendFound, sends, -⟩ := (coherent.waiting _ _).mp found
              obtain ⟨other, otherFound, otherSends, -⟩ := (coherent.waiting _ _).mp waits
              simp only [isSource] at sendFound
              obtain rfl := Option.some.inj (sendFound.symm.trans otherFound)
              apply different
              have account : key.account = stored.sideband.account :=
                Transfer.sends.inj (otherSends.symm.trans sends)
              rw [isSource, ← account]
        · have different : key ≠ ⟨stored.sideband.account, source⟩ :=
            fun same => isSource (same ▸ rfl)
          simp [Table.get?_erase_of_ne _ different, isSource]

/-! ### Weights and supply -/

theorem append_moved (representative : Account) :
    (tables.append stored).delegated representative
        + (portion ((tables.accounts.get? stored.sideband.account).map (votes tables.blocks))
            representative).toNat
      = tables.delegated representative
        + (portion (some (votes (tables.append stored).blocks
            (.after (tables.accounts.get? stored.sideband.account) stored)))
            representative).toNat := by
  have same := append_sameElsewhere tables stored
  have unchanged {account : Account} {record : AccountRecord}
      (found : tables.accounts.get? account = some record) :
      representativeOf (tables.append stored).blocks record
        = representativeOf tables.blocks record := by
    obtain ⟨head, recorded⟩ := coherent.recorded found
    obtain ⟨naming, -, namingFound, -⟩ := recorded.representative.names
    exact same.representativeOf_eq (admissible.ne_of_found namingFound)
  have replaced := Table.total_insert
    (delegation (tables.append stored).blocks representative) tables.accounts
    stored.sideband.account (.after (tables.accounts.get? stored.sideband.account) stored)
  have others : tables.accounts.total (delegation (tables.append stored).blocks representative)
      = tables.delegated representative :=
    Table.total_congr fun account record found => by
      unfold delegation
      rw [unchanged found]
  rw [others] at replaced
  rw [(recorded_after coherent sound admissible).portion_votes]
  have lost : tables.accounts.share (delegation (tables.append stored).blocks representative)
        stored.sideband.account
      = (portion ((tables.accounts.get? stored.sideband.account).map (votes tables.blocks))
          representative).toNat := by
    cases placed : tables.accounts.get? stored.sideband.account with
    | none => rw [Table.share_of_none placed]; rfl
    | some record =>
        obtain ⟨head, recorded⟩ := coherent.recorded placed
        rw [Table.share_of_some placed, Option.map_some, recorded.portion_votes]
        unfold delegation
        rw [unchanged placed]
  rw [← lost]
  exact replaced

theorem append_weighed (representative : Account) :
    (tables.append stored).weight representative
      = .ofNat ((tables.append stored).delegated representative) :=
  weight_reweigh_of_moved _ _ (coherent.weighed representative)
    (append_moved coherent sound admissible representative)

omit sound in
/-- What the account gains no longer waits, and what it loses waits from now on. -/
theorem append_receivables :
    (tables.append stored).receivables.total (fun _ receivable => receivable.amount.toNat)
        + stored.sideband.balance.toNat
      = tables.receivables.total (fun _ receivable => receivable.amount.toNat)
        + (balanceBefore tables.blocks stored).toNat := by
  have settles := admissible.justified.settles
  unfold append
  cases transfer : stored.transfer with
  | sends destination =>
      simp only [Settles, transfer] at settles ⊢
      have covered := settles.2.1
      have inserted := Table.total_insert (fun _ receivable => receivable.amount.toNat)
        tables.receivables ⟨destination, stored.hash⟩
        ⟨stored.sideband.account, sentAmount tables.blocks stored, stored.sideband.details.epoch⟩
      have unused := fresh_not_waiting coherent admissible ⟨destination, stored.hash⟩ rfl
      rw [Table.share_of_none unused] at inserted
      have amount : (sentAmount tables.blocks stored).toNat = _ := Amount.toNat_wrappingSub covered
      simp only at inserted
      omega
  | receives source =>
      simp only [Settles, transfer] at settles ⊢
      obtain ⟨send, sendFound, -, balance, -⟩ := settles
      obtain ⟨received, found⟩ := admissible.waiting source transfer
      have erased := Table.total_erase (fun _ receivable => receivable.amount.toNat)
        tables.receivables ⟨stored.sideband.account, source⟩
      rw [Table.share_of_some found] at erased
      obtain ⟨other, otherFound, -, -, rfl⟩ := (coherent.waiting _ _).mp found
      obtain rfl := Option.some.inj (sendFound.symm.trans otherFound)
      simp only at erased
      omega
  | neither =>
      simp only [Settles, transfer] at settles ⊢
      rw [settles.1]

omit sound in
theorem append_conserved : (tables.append stored).supply = constants.genesisAmount.toNat := by
  have accounts : (tables.append stored).accounts.total (fun _ record => record.balance.toNat)
        + tables.accounts.share (fun _ record => record.balance.toNat) stored.sideband.account
      = tables.accounts.total (fun _ record => record.balance.toNat)
        + stored.sideband.balance.toNat :=
    Table.total_insert _ _ _ _
  have before : tables.accounts.share (fun _ record => record.balance.toNat)
      stored.sideband.account = (balanceBefore tables.blocks stored).toNat := by
    rw [balanceBefore_eq coherent admissible]
    cases placed : tables.accounts.get? stored.sideband.account with
    | none => rw [Table.share_of_none placed]; rfl
    | some record => rw [Table.share_of_some placed]; rfl
  have receivables := append_receivables coherent admissible
  rw [before] at accounts
  have conserved := coherent.conserved
  unfold supply at conserved ⊢
  omega

/-- A coherent ledger stays coherent when an admissible block is added. -/
theorem append : Coherent constants (tables.append stored) where
  keyed := append_keyed coherent admissible
  genesis := append_genesis coherent admissible
  justified := append_justified coherent sound admissible
  once := append_once coherent admissible
  ranked := append_ranked coherent sound admissible
  linked := append_linked coherent admissible
  recorded := append_recorded coherent sound admissible
  belongs := append_belongs coherent admissible
  fronted := append_fronted coherent sound admissible
  waiting := append_waiting coherent sound admissible
  weighed := append_weighed coherent sound admissible
  tidy := coherent.tidy.reweigh _ _
  conserved := append_conserved coherent admissible

end Preservation

end Coherent

end Tables

end AccountChains
