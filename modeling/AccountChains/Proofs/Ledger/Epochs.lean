import AccountChains.Proofs.Ledger.Replay

/-!
Contract: how epochs go along a chain.

There are three ways to an epoch: an epoch block leads to it, a send from it is received,
or an account is opened in it. Each block says in its sideband which epoch its account has
come to, and that is justified by the block before it and the send it receives. So what is
true of each step is true of a chain: epochs never fall, and legacy blocks, which know only
the first epoch, come before all others.

Owns: that two blocks of a chain are ordered by their heights, what is passed on along a
chain, and `EpochDisciplined`. Does not own: why stored blocks are justified.
-/

namespace AccountChains

open BlockTable Tables

namespace Epoch

theorem number_later (first second : Epoch) :
    (first.later second).number = max first.number second.number := by
  cases first <;> cases second <;> rfl

/-- The epoch that comes next has the next number. -/
theorem number_of_isSequential {current new : Epoch} (sequential : current.isSequential new) :
    new.number = current.number + 1 := by
  unfold isSequential at sequential
  exact number_of_ofNumber? (by simpa [next?] using sequential)

end Epoch

/-! ## Along a chain -/

namespace Tables.Coherent

variable {constants : LedgerConstants} {tables : Tables} {hash other : BlockHash}
  {stored later : StoredBlock} (coherent : Coherent constants tables) (sound : constants.Sound)

include coherent

theorem epochBefore_first (first : stored.block.previous = .zero) :
    epochBefore tables.blocks stored = .zero := by
  rw [epochBefore, first, zero_absent coherent]
  rfl

include sound

theorem first_iff (found : tables.blocks.get? hash = some stored) :
    stored.block.previous = .zero ↔ stored.sideband.height.toNat = 1 := by
  refine ⟨fun first => (first_block coherent sound found first).1, fun isOne => ?_⟩
  by_contra isLater
  obtain ⟨before, beforeFound, follows⟩ := later_block coherent sound found isLater
  have oneHigher := follows.height
  have positive := height_pos coherent sound beforeFound
  omega

/-- A chain has one block of each height. -/
theorem eq_of_height (found : tables.blocks.get? hash = some stored)
    (otherFound : tables.blocks.get? other = some later)
    (sameAccount : stored.sideband.account = later.sideband.account)
    (sameHeight : stored.sideband.height.toNat = later.sideband.height.toNat) : hash = other := by
  induction height : stored.sideband.height.toNat using Nat.strongRecOn
    generalizing hash other stored later with
  | ind height inductionHypothesis =>
      have bothFirst : stored.block.previous = .zero ↔ later.block.previous = .zero := by
        rw [first_iff coherent sound found, first_iff coherent sound otherFound, sameHeight]
      by_cases first : stored.block.previous = .zero
      · obtain ⟨record, belongs⟩ := coherent.belongs found
        obtain ⟨otherRecord, otherBelongs⟩ := coherent.belongs otherFound
        have sameRecord := belongs.found
        rw [sameAccount, otherBelongs.found] at sameRecord
        obtain rfl := Option.some.inj sameRecord
        exact (belongs.first first).symm.trans (otherBelongs.first (bothFirst.mp first))
      · obtain ⟨before, beforeFound, follows⟩ := later_block coherent sound found first
        obtain ⟨otherBefore, otherBeforeFound, otherFollows⟩ :=
          later_block coherent sound otherFound (mt bothFirst.mpr first)
        have oneHigher := follows.height
        have otherHigher := otherFollows.height
        have samePrevious := inductionHypothesis _ (by omega) beforeFound otherBeforeFound
          (by rw [follows.account, otherFollows.account, sameAccount]) (by omega) rfl
        have linked := successor_of coherent found first
        rw [samePrevious, successor_of coherent otherFound (mt bothFirst.mpr first)] at linked
        exact (Option.some.inj linked).symm

/-- What each block of a chain takes over from the block before it, the higher blocks of the chain
take over from the lower ones. -/
theorem along_chain (relates : StoredBlock → StoredBlock → Prop)
    (self : ∀ stored, relates stored stored)
    (step : ∀ {hash lower before next}, tables.blocks.get? hash = some next →
      tables.blocks.get? next.block.previous = some before → next.block.previous ≠ .zero →
      Follows before next → relates lower before → relates lower next)
    (found : tables.blocks.get? hash = some stored)
    (laterFound : tables.blocks.get? other = some later)
    (sameAccount : stored.sideband.account = later.sideband.account)
    (below : stored.sideband.height.toNat ≤ later.sideband.height.toNat) :
    relates stored later := by
  -- Down the chain, from the higher block to the lower one.
  induction height : later.sideband.height.toNat generalizing other later with
  | zero =>
      have positive := height_pos coherent sound laterFound
      omega
  | succ height inductionHypothesis =>
      by_cases same : stored.sideband.height.toNat = later.sideband.height.toNat
      · obtain rfl := eq_of_height coherent sound found laterFound sameAccount same
        obtain rfl := Option.some.inj (found.symm.trans laterFound)
        exact self stored
      · have positive := height_pos coherent sound found
        have isLater : later.block.previous ≠ .zero := by
          intro first
          have isOne := (first_iff coherent sound laterFound).mp first
          omega
        obtain ⟨before, beforeFound, follows⟩ := later_block coherent sound laterFound isLater
        have oneHigher := follows.height
        exact step laterFound beforeFound isLater follows (inductionHypothesis beforeFound
          (by rw [follows.account, sameAccount]) (by omega) (by omega))

end Tables.Coherent

namespace Ledger

/-- An epoch block leads its account from the block before it to the very next epoch, and leaves
the balance and the representative as they are. -/
structure Upgrades (tables : Tables) (before stored : StoredBlock) : Prop where
  epoch : stored.sideband.details.epoch.number = before.sideband.details.epoch.number + 1
  balance : stored.sideband.balance = before.sideband.balance
  representative : ∃ naming representative,
    representativeBlock? tables stored.block.previous = .ok (some naming) ∧
    representativeOfBlock? tables naming = .ok (some representative) ∧
    stored.block.representative? = some representative

/-- How the epochs of a ledger hang together. -/
structure EpochDisciplined (constants : LedgerConstants) (tables : Tables) : Prop where
  /-- The epoch of an account never falls. -/
  rises : ∀ {hash other stored later}, tables.blocks.get? hash = some stored →
    tables.blocks.get? other = some later → stored.sideband.account = later.sideband.account →
    stored.sideband.height.toNat ≤ later.sideband.height.toNat →
      stored.sideband.details.epoch.number ≤ later.sideband.details.epoch.number
  /-- An epoch block that is not the first one of its chain. -/
  upgrades : ∀ {hash stored}, tables.blocks.get? hash = some stored →
    stored.sideband.details.isEpoch → stored.block.previous ≠ .zero →
      ∃ before, tables.blocks.get? stored.block.previous = some before ∧
        Upgrades tables before stored
  /-- Any other block stays in the epoch that its account has. -/
  stays : ∀ {hash stored}, tables.blocks.get? hash = some stored →
    stored.sideband.details.isEpoch = false →
    (∀ source, stored.transfer = .receives source → hash = constants.genesis.hash) →
      stored.sideband.details.epoch = epochBefore tables.blocks stored
  /-- If it receives, it follows the sender to its epoch. -/
  follows : ∀ {hash stored source}, tables.blocks.get? hash = some stored →
    stored.sideband.details.isEpoch = false → hash ≠ constants.genesis.hash →
    stored.transfer = .receives source → ∃ send, tables.blocks.get? source = some send ∧
      send.transfer = .sends stored.sideband.account ∧
      stored.sideband.details.epoch.number
        = max (epochBefore tables.blocks stored).number send.sideband.details.epoch.number
  /-- Legacy blocks come before all others. -/
  prefixed : ∀ {hash other stored later}, tables.blocks.get? hash = some stored →
    tables.blocks.get? other = some later → stored.sideband.account = later.sideband.account →
    stored.sideband.height.toNat ≤ later.sideband.height.toNat →
      later.block.kind.isLegacy → stored.block.kind.isLegacy
  /-- Legacy blocks are in the first epoch, and so are the sends that they receive. -/
  original : ∀ {hash stored}, tables.blocks.get? hash = some stored →
    stored.block.kind.isLegacy → stored.sideband.details.epoch = .zero ∧
      ∀ source, hash ≠ constants.genesis.hash → stored.transfer = .receives source →
        ∃ send, tables.blocks.get? source = some send ∧ send.sideband.details.epoch = .zero

section Discipline

variable {constants : LedgerConstants} {tables : Tables} {hash : BlockHash}
  {stored before : StoredBlock} (coherent : tables.Coherent constants) (sound : constants.Sound)

theorem epochBefore_later (found : tables.blocks.get? stored.block.previous = some before) :
    epochBefore tables.blocks stored = before.sideband.details.epoch := by
  rw [epochBefore, found]
  rfl

theorem balanceBefore_later (found : tables.blocks.get? stored.block.previous = some before) :
    balanceBefore tables.blocks stored = before.sideband.balance := by
  rw [balanceBefore, found]
  rfl

theorem settles_of_receives {source : BlockHash} (justified : Justified tables.blocks stored)
    (receives : stored.transfer = .receives source) : ∃ send,
      tables.blocks.get? source = some send ∧ send.transfer = .sends stored.sideband.account ∧
      stored.sideband.sourceEpoch = send.sideband.details.epoch := by
  have settles := justified.settles
  simp only [Settles, receives] at settles
  obtain ⟨send, found, sends, -, sourceEpoch⟩ := settles
  exact ⟨send, found, sends, sourceEpoch⟩

/-- A block that receives nothing has no part in another epoch. -/
theorem sourceEpoch_eq_zero (justified : Justified tables.blocks stored)
    (keeps : ∀ source, stored.transfer ≠ .receives source) :
    stored.sideband.sourceEpoch = .zero := by
  have settles := justified.settles
  unfold Settles at settles
  cases transfer : stored.transfer with
  | receives source => exact absurd transfer (keeps source)
  | sends destination =>
      rw [transfer] at settles
      exact settles.2.2
  | neither =>
      rw [transfer] at settles
      exact settles.2

include coherent sound

theorem ne_genesis_of_later (found : tables.blocks.get? hash = some stored)
    (later : stored.block.previous ≠ .zero) : hash ≠ constants.genesis.hash := by
  rintro rfl
  exact later (coherent.genesis_first sound found).1

/-- One block leads an account to a later epoch, or leaves it where it is. -/
theorem number_le_next (found : tables.blocks.get? hash = some stored)
    (beforeFound : tables.blocks.get? stored.block.previous = some before)
    (later : stored.block.previous ≠ .zero) :
    before.sideband.details.epoch.number ≤ stored.sideband.details.epoch.number := by
  have justified := coherent.justified found (ne_genesis_of_later coherent sound found later)
  rw [← epochBefore_later beforeFound]
  cases isEpoch : stored.sideband.details.isEpoch with
  | true =>
      rw [Epoch.number_of_isSequential ((justified.upgrades isEpoch).2 later)]
      exact Nat.le_succ _
  | false =>
      rw [justified.stays isEpoch, Epoch.number_later]
      exact le_max_left _ _

theorem epoch_stays (found : tables.blocks.get? hash = some stored)
    (isPlain : stored.sideband.details.isEpoch = false)
    (keeps : ∀ source, stored.transfer = .receives source → hash = constants.genesis.hash) :
    stored.sideband.details.epoch = epochBefore tables.blocks stored := by
  by_cases isGenesis : hash = constants.genesis.hash
  · subst isGenesis
    obtain ⟨first, -, -, details⟩ := coherent.genesis_first sound found
    rw [details, coherent.epochBefore_first first]
    rfl
  · have justified := coherent.justified found isGenesis
    rw [justified.stays isPlain, sourceEpoch_eq_zero justified
      fun source receives => isGenesis (keeps source receives), Epoch.later_zero]

omit sound in
theorem epoch_follows {source : BlockHash} (found : tables.blocks.get? hash = some stored)
    (isPlain : stored.sideband.details.isEpoch = false)
    (notGenesis : hash ≠ constants.genesis.hash)
    (receives : stored.transfer = .receives source) : ∃ send,
      tables.blocks.get? source = some send ∧ send.transfer = .sends stored.sideband.account ∧
      stored.sideband.details.epoch.number
        = max (epochBefore tables.blocks stored).number send.sideband.details.epoch.number := by
  have justified := coherent.justified found notGenesis
  obtain ⟨send, sendFound, sends, sourceEpoch⟩ := settles_of_receives justified receives
  refine ⟨send, sendFound, sends, ?_⟩
  rw [justified.stays isPlain, Epoch.number_later, sourceEpoch]

theorem epoch_of_legacy (found : tables.blocks.get? hash = some stored)
    (legacy : stored.block.kind.isLegacy) : stored.sideband.details.epoch = .zero ∧
      ∀ source, hash ≠ constants.genesis.hash → stored.transfer = .receives source →
        ∃ send, tables.blocks.get? source = some send ∧ send.sideband.details.epoch = .zero := by
  have isPlain := coherent.plain_of_legacy sound found legacy
  refine ⟨by rw [isPlain]; rfl, fun source notGenesis receives => ?_⟩
  have justified := coherent.justified found notGenesis
  obtain ⟨send, sendFound, -, sourceEpoch⟩ := settles_of_receives justified receives
  have stays := justified.stays (by rw [isPlain]; rfl)
  rw [isPlain] at stays
  exact ⟨send, sendFound, sourceEpoch.symm.trans (later_eq_zero stays)⟩

/-- Only a state block can be an epoch block. -/
theorem upgrading_of_isEpoch {hint : Verification} (found : tables.blocks.get? hash = some stored)
    (isEpoch : stored.sideband.details.isEpoch)
    (suits : Suits constants hint tables.blocks stored) : ∃ content,
      stored.block.content = .state content ∧
      Upgrading constants tables.blocks stored content := by
  have permitted := suits.permitted
  unfold Permitted at permitted
  cases form : stored.block.content with
  | send | receive | opening | change =>
      have isPlain := coherent.plain_of_legacy sound found
        (congrArg BlockKind.isLegacy (Block.kind_of_form form))
      rw [isPlain] at isEpoch
      exact absurd isEpoch Bool.false_ne_true
  | state content =>
      simp only [form, if_pos isEpoch] at permitted
      exact ⟨content, rfl, permitted.2⟩

theorem epoch_upgrades {hint : Verification} (found : tables.blocks.get? hash = some stored)
    (isEpoch : stored.sideband.details.isEpoch) (later : stored.block.previous ≠ .zero)
    (suits : Suits constants hint tables.blocks stored) :
    ∃ before, tables.blocks.get? stored.block.previous = some before ∧
      Upgrades tables before stored := by
  obtain ⟨before, beforeFound, -⟩ := coherent.later_block sound found later
  obtain ⟨neither, sequential⟩ := suits.justified.upgrades isEpoch
  have settles := suits.justified.settles
  simp only [Settles, neither] at settles
  refine ⟨before, beforeFound, ?_, ?_, ?_⟩
  · rw [← epochBefore_later beforeFound]
    exact Epoch.number_of_isSequential (sequential later)
  · rw [← balanceBefore_later beforeFound]
    exact settles.1
  · -- The block names the representative that the walk back finds.
    obtain ⟨content, form, upgrading⟩ := upgrading_of_isEpoch coherent sound found isEpoch suits
    obtain ⟨naming, named, namedBy, namedFound, agrees⟩ := upgrading.agrees later
    obtain ⟨other, otherNamed, answers⟩ := coherent.representativeBlock?_eq sound beforeFound
    obtain rfl := namedBy.unique otherNamed
    refine ⟨naming, content.representative, answers, ?_, ?_⟩
    · simp only [representativeOfBlock?, AccountChains.stored, Store.block?, namedFound]
      exact congrArg Except.ok agrees
    · rw [Block.representative?, form]
      rfl

end Discipline

/-- In every state that a ledger gets into, epochs are disciplined. -/
theorem Reachable.epoch_disciplined {constants : LedgerConstants} {tables : Tables}
    (reachable : Reachable constants tables) (sound : constants.Sound) :
    EpochDisciplined constants tables := by
  have coherent := reachable.coherent sound
  exact {
    rises := coherent.along_chain sound
      (fun lower higher =>
        lower.sideband.details.epoch.number ≤ higher.sideband.details.epoch.number)
      (fun _ => le_rfl) fun found beforeFound later _ below =>
        below.trans (number_le_next coherent sound found beforeFound later)
    upgrades := fun found isEpoch later => by
      obtain ⟨hint, suits⟩ :=
        reachable.suits sound found (ne_genesis_of_later coherent sound found later)
      exact epoch_upgrades coherent sound found isEpoch later suits
    stays := epoch_stays coherent sound
    follows := epoch_follows coherent
    prefixed := coherent.along_chain sound
      (fun lower higher => higher.block.kind.isLegacy → lower.block.kind.isLegacy)
      (fun _ => id) fun _ _ _ follows below legacy => below (follows.legacy legacy)
    original := epoch_of_legacy coherent sound }

section Development

open LedgerConstants

/-- The genesis account goes to the first epoch after the original one. -/
def devUpgrade : Block :=
  { content := .state
      { account := dev.genesisAccount, previous := dev.genesis.hash
        representative := dev.genesisAccount, balance := .greatest
        link := epochLink "epoch v1 block" }
    signature := .zero
    work := 0 }

/-- The ledger after the epoch block. -/
def devUpgraded : Tables :=
  leftBy (process .dev .zero .validEpoch devUpgrade) (started .dev .zero .empty none)

private theorem devUpgrade_evaluated : devUpgrade.hash ≠ .zero ∧
    ((process .dev .zero .validEpoch devUpgrade).run (started .dev .zero .empty none)).1
      = .ok ⟨.progress, dev.genesisAccount, .zero, .zero, .validEpoch, .greatest⟩ := by
  decide +kernel

theorem devUpgrade_named : devUpgrade.hash ≠ .zero := devUpgrade_evaluated.1

theorem devUpgrade_progresses :
    (process .dev .zero .validEpoch devUpgrade).run (started .dev .zero .empty none)
      = (.ok ⟨.progress, dev.genesisAccount, .zero, .zero, .validEpoch, .greatest⟩, devUpgraded) :=
  run_eq_leftBy devUpgrade_evaluated.2

theorem devUpgraded_epoch_disciplined : EpochDisciplined .dev devUpgraded := by
  obtain ⟨named, upgrades⟩ := devUpgrade_evaluated
  exact Reachable.epoch_disciplined
    (.after (.started .zero .empty none) (.answered named (run_eq_leftBy upgrades))) dev_sound

end Development

end Ledger

end AccountChains
