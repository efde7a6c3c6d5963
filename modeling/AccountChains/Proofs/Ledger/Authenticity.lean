import AccountChains.Proofs.Ledger.Provenance

/-!
Contract: who signed what is stored.

A legacy block does not name its account, so the key that has to have signed it is
looked up; a state block with an epoch link is classified before a key is chosen for
it. Without hints every block goes through one of these checks. So each stored block
is signed by the account in its sideband, or by the signer of its link if it is an
epoch block, and nobody but its owner makes the balance of an account fall.

Owns: `Authentic`, and that a ledger which gets no hints stores nothing else. Does not
own: what a hint has to be based on.
-/

namespace AccountChains

open BlockTable Tables

namespace Ledger

/-- A stored block is signed by its account, or by the signer that is registered for its link if
it is an epoch block. -/
def Authentic (constants : LedgerConstants) (stored : StoredBlock) : Prop :=
  if stored.sideband.details.isEpoch then
    ∃ signer, constants.epochs.signer? stored.block.link = some signer ∧
      stored.block.isSignedBy signer
  else stored.block.isSignedBy stored.sideband.account

/-- A call comes without knowledge about signatures. -/
inductive Unhinted : Call → Prop where
  | process (now : Timestamp) (block : Block) : Unhinted (.process now .unknown block)
  | rollback (hash : BlockHash) : Unhinted (.rollback hash)

/-- Everything that is stored is authentic, and the balance of an account falls only at a block
that the account has signed. -/
structure Authenticated (constants : LedgerConstants) (tables : Tables) : Prop where
  authentic : ∀ {hash stored}, tables.blocks.get? hash = some stored → Authentic constants stored
  spends : ∀ {hash stored before}, tables.blocks.get? hash = some stored →
    tables.blocks.get? stored.block.previous = some before →
    stored.sideband.balance < before.sideband.balance →
    before.sideband.account = stored.sideband.account ∧
      stored.block.isSignedBy stored.sideband.account

section Suiting

variable {constants : LedgerConstants} {blocks : BlockTable} {stored : StoredBlock}

/-- An epoch block is a state block. -/
theorem state_of_isEpoch (justified : Justified blocks stored)
    (isEpoch : stored.sideband.details.isEpoch = true) :
    ∃ content, stored.block.content = .state content := by
  have notLegacy : ¬ stored.block.kind.isLegacy := by
    intro legacy
    rw [justified.legacy legacy] at isEpoch
    exact Bool.false_ne_true isEpoch
  cases form : stored.block.content with
  | state content => exact ⟨content, rfl⟩
  | _ => exact absurd (congrArg BlockKind.isLegacy (Block.kind_of_form form)) notLegacy

/-- A block that suits a ledger without a hint is authentic. -/
theorem Suits.authentic (suits : Suits constants .unknown blocks stored) :
    Authentic constants stored := by
  have authorized := suits.authorized
  unfold Authorized at authorized
  unfold Authentic
  cases isEpoch : stored.sideband.details.isEpoch with
  | true =>
      rw [if_pos isEpoch] at authorized
      rw [if_pos rfl]
      obtain ⟨content, form⟩ := state_of_isEpoch suits.justified isEpoch
      obtain ⟨upgrade, registered⟩ := exists_upgrade form suits isEpoch
      have signer : constants.epochs.signer? stored.block.link = some upgrade.signer := by
        rw [EpochLinks.signer?, Block.link_of_form form]
        exact congrArg (Option.map EpochUpgrade.signer) registered
      rw [signer, Option.getD_some] at authorized
      exact ⟨upgrade.signer, signer, isVouchedOrSigned_of_unknown (by simp) authorized⟩
  | false =>
      rw [if_neg (by simp [isEpoch])] at authorized
      exact isVouchedOrSigned_of_unknown (by simp) authorized

/-- The balance falls only at a send. -/
theorem sends_of_spends {before : StoredBlock} (justified : Justified blocks stored)
    (found : blocks.get? stored.block.previous = some before)
    (spends : stored.sideband.balance < before.sideband.balance) :
    ∃ destination, stored.transfer = .sends destination := by
  have settles := justified.settles
  have balance : balanceBefore blocks stored = before.sideband.balance := by
    rw [balanceBefore, found]
    rfl
  rw [Amount.lt_iff_toNat_lt, ← balance] at spends
  unfold Settles at settles
  cases transfer : stored.transfer with
  | sends destination => exact ⟨destination, rfl⟩
  | receives source =>
      simp only [transfer] at settles
      obtain ⟨send, -, -, gained, -⟩ := settles
      omega
  | neither =>
      simp only [transfer] at settles
      rw [settles.1] at spends
      exact absurd spends (Nat.lt_irrefl _)

end Suiting

section Reaching

variable {constants : LedgerConstants} {tables : Tables} {hash : BlockHash}
  {stored before : StoredBlock} (coherent : tables.Coherent constants)
  (sound : constants.Sound)

include coherent sound

/-- At a block that spends, the signer of an authentic block is its account. -/
theorem signed_of_spends (authentic : Authentic constants stored)
    (found : tables.blocks.get? hash = some stored)
    (foundBefore : tables.blocks.get? stored.block.previous = some before)
    (spends : stored.sideband.balance < before.sideband.balance) :
    before.sideband.account = stored.sideband.account ∧
      stored.block.isSignedBy stored.sideband.account := by
  have later : stored.block.previous ≠ .zero := (coherent.keyed foundBefore).2
  have notGenesis : hash ≠ constants.genesis.hash := by
    rintro rfl
    exact later (coherent.genesis_first sound found).1
  have justified := coherent.justified found notGenesis
  obtain ⟨other, otherFound, follows⟩ := justified.follows later
  obtain rfl := Option.some.inj (foundBefore.symm.trans otherFound)
  refine ⟨follows.account, ?_⟩
  have notEpoch : ¬ stored.sideband.details.isEpoch := by
    intro isEpoch
    obtain ⟨destination, sends⟩ := sends_of_spends justified foundBefore spends
    have neither := (justified.upgrades isEpoch).1
    rw [sends] at neither
    exact Transfer.noConfusion neither
  unfold Authentic at authentic
  rw [if_neg notEpoch] at authentic
  exact authentic

omit coherent in
/-- A ledger whose genesis block is signed, and that gets no hints, stores authentic blocks. -/
theorem ReachableBy.authenticated (reached : ReachableBy constants Unhinted tables)
    (signed : constants.genesis.isSignedBy constants.genesisAccount) :
    Authenticated constants tables := by
  have coherent := reached.reachable.coherent sound
  have authentic {hash : BlockHash} {stored : StoredBlock}
      (found : tables.blocks.get? hash = some stored) : Authentic constants stored := by
    by_cases isGenesis : hash = constants.genesis.hash
    · obtain ⟨now, isStored⟩ := coherent.genesis
      rw [← isGenesis, found] at isStored
      obtain rfl := Option.some.inj isStored
      exact signed
    · obtain ⟨-, isUnhinted, suits⟩ := reached.takenIn sound found isGenesis
      cases isUnhinted
      exact suits.authentic
  exact ⟨authentic, fun found => signed_of_spends coherent sound (authentic found) found⟩

end Reaching

section Development

open LedgerConstants

theorem dev_genesis_signed : dev.genesis.isSignedBy dev.genesisAccount := by
  decide +kernel

/-- The genesis account sends all it has, with a signature. -/
def devPayment : Block :=
  devKey.block (.send { previous := dev.genesis.hash, destination := ⟨7⟩, balance := .zero }) 0

/-- The ledger after the payment. -/
def devPaid : Tables :=
  leftBy (process .dev .zero .unknown devPayment) (started .dev .zero .empty none)

private theorem devPayment_evaluated : devPayment.hash ≠ .zero ∧
    ((process .dev .zero .unknown devPayment).run (started .dev .zero .empty none)).1
      = .ok ⟨.progress, dev.genesisAccount, .greatest, ⟨7⟩, .valid, .greatest⟩ := by
  decide +kernel

theorem devPayment_named : devPayment.hash ≠ .zero := devPayment_evaluated.1

theorem devPayment_progresses :
    (process .dev .zero .unknown devPayment).run (started .dev .zero .empty none)
      = (.ok ⟨.progress, dev.genesisAccount, .greatest, ⟨7⟩, .valid, .greatest⟩, devPaid) :=
  run_eq_leftBy devPayment_evaluated.2

/-- The payment was taken in without a hint, so it is signed. -/
theorem devPayment_signed : devPayment.isSignedBy dev.genesisAccount := by
  have pays : Grows .dev (started .dev .zero .empty none) ⟨.zero, .unknown, devPayment⟩ devPaid :=
    ⟨_, devPayment_progresses, rfl⟩
  obtain ⟨sideband, -, suits, -, -⟩ :=
    pays.suits (coherent_started dev_sound .zero .empty none) dev_sound devPayment_named
  obtain ⟨before, found, follows⟩ := suits.justified.follows dev_sound.named
  obtain ⟨-, rfl⟩ := (found_started .zero .empty none).mp found
  have signed := signed_of_plain suits.authorized (suits.justified.legacy rfl)
  rw [← follows.account] at signed
  exact isVouchedOrSigned_of_unknown (by decide) signed

/-- On the development network, a ledger that gets no hints stores only blocks that are signed by
their account or, for an epoch block, by the signer of the link; and only their owner spends from
an account. -/
theorem ReachableBy.dev_authenticated {tables : Tables}
    (reached : ReachableBy .dev Unhinted tables) : Authenticated .dev tables :=
  reached.authenticated dev_sound dev_genesis_signed

theorem devPaid_authenticated : Authenticated .dev devPaid := by
  obtain ⟨named, pays⟩ := devPayment_evaluated
  exact ReachableBy.dev_authenticated
    (.after (.started .zero .empty none) (.process ..) (.answered named (run_eq_leftBy pays)))

end Development

end Ledger

end AccountChains
