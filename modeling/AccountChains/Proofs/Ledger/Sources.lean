import AccountChains.Proofs.Ledger.Epochs
import AccountChains.Proofs.Ledger.Hindsight

/-!
Contract: where the money of a stored block comes from, as queries tell it.

The call that took a block in also settled what the block received: the receivable of
one send was there before the call and was gone after it. Two queries name that send ever
after, each from the block alone: the source of the block, and what it depends on beside
its predecessor. For a block that received nothing both say zero, up to epoch links.

The queries differ about these. An epoch block receives nothing, but its source is its
link, read as a hash. What a block depends on leaves every epoch link out, even one that
happens to be the hash of a send that was received.

Owns: the receivable that a call settles, and the answers about the source of a block.
Does not own: what a send leaves to be received.
-/

namespace AccountChains

open BlockTable Tables

/-- A state block whose link is registered for an epoch, whatever the block does. -/
def Block.HasEpochLink (constants : LedgerConstants) (block : Block) : Prop :=
  block.kind = .state ∧ constants.epochs.isEpochLink block.link

instance (constants : LedgerConstants) (block : Block) :
    Decidable (block.HasEpochLink constants) :=
  inferInstanceAs (Decidable (_ ∧ _))

namespace Ledger

/-- Something waits to be received before the call that does not wait after it. -/
def Taking.Settles (taking : Taking) (key : ReceivableKey) : Prop :=
  (taking.before.receivables.get? key).isSome ∧ taking.after.receivables.get? key = none

section Settling

variable {constants : LedgerConstants} {tables : Tables} {stored : StoredBlock}
  {key : ReceivableKey}

/-- Exactly a block that receives settles something: the send that it receives, for its owner. -/
theorem settles_append_iff (admissible : Admissible tables stored) :
    (tables.receivables.get? key).isSome ∧ (tables.append stored).receivables.get? key = none ↔
      stored.transfer = .receives key.hash ∧ key.account = stored.sideband.account := by
  obtain ⟨account, hash⟩ := key
  cases role : stored.transfer with
  | sends destination =>
      rw [receivables_append_of_sends role, Table.get?_insert]
      simp only [reduceCtorEq, false_and, iff_false]
      rintro ⟨before, after⟩
      split at after
      · cases after
      · simp [after] at before
  | receives source =>
      rw [receivables_append_of_receives role, Table.get?_erase]
      simp only [ReceivableKey.mk.injEq, Transfer.receives.injEq]
      constructor
      · rintro ⟨before, after⟩
        split at after
        · next same => exact ⟨same.2.symm, same.1⟩
        · simp [after] at before
      · rintro ⟨rfl, rfl⟩
        obtain ⟨receivable, waits⟩ := admissible.waiting _ role
        simp [waits]
  | neither =>
      rw [receivables_append_of_neither role]
      simp only [reduceCtorEq, false_and, iff_false]
      rintro ⟨before, after⟩
      simp [after] at before

end Settling

/-! ## Answers -/

section Answers

variable {constants : LedgerConstants} {tables : Tables} {stored : StoredBlock}
  {hint : Verification}

/-- A block of before state blocks names its source, or has none. -/
theorem sources_of_legacy (constants : LedgerConstants) (tables : Tables) {block : Block}
    (legacy : block.kind.isLegacy) : blockSource tables block = .ok block.source ∧
      dependentBlocks constants tables block = .ok (block.previous, block.source) := by
  unfold blockSource dependentBlocks
  cases form : block.content with
  | state content =>
      rw [Block.kind_of_form form] at legacy
      cases legacy
  | send | receive | opening | change =>
      rw [Block.source, form]
      exact ⟨rfl, rfl⟩

variable (coherent : tables.Coherent constants) (justified : Justified tables.blocks stored)

include coherent justified

/-- The link of a state block is its source, unless the block spends. -/
theorem sources_of_state {content : StateContent} (form : stored.block.content = .state content) :
    blockSource tables stored.block
        = .ok (if stored.sideband.details.isSend then .zero else content.link.asBlockHash) ∧
      dependentBlocks constants tables stored.block
        = .ok (stored.block.previous,
            if stored.sideband.details.isSend ∨ constants.epochs.isEpochLink content.link then .zero
            else content.link.asBlockHash) := by
  have answer := isSend_eq coherent justified form
  unfold blockSource dependentBlocks
  simp only [form, answer, bind, Except.bind, pure, Except.pure, Block.source, Content.source]
  cases stored.sideband.details.isSend <;>
    cases constants.epochs.isEpochLink content.link <;> exact ⟨rfl, rfl⟩

/-- A block depends on its source, unless this is an epoch link. -/
theorem dependentBlocks_eq : ∃ source, blockSource tables stored.block = .ok source ∧
    dependentBlocks constants tables stored.block
      = .ok (stored.block.previous,
          if stored.block.HasEpochLink constants then .zero else source) := by
  cases form : stored.block.content with
  | state content =>
      obtain ⟨source, depends⟩ := sources_of_state coherent justified form
      refine ⟨_, source, depends.trans ?_⟩
      have linked : stored.block.HasEpochLink constants
          ↔ constants.epochs.isEpochLink content.link := by
        rw [Block.HasEpochLink, Block.link_of_form form]
        exact and_iff_right (Block.kind_of_form form)
      simp only [linked]
      cases stored.sideband.details.isSend <;> simp
  | send | receive | opening | change =>
      have isKind := Block.kind_of_form form
      obtain ⟨source, depends⟩ :=
        sources_of_legacy constants tables (congrArg BlockKind.isLegacy isKind)
      refine ⟨_, source, depends.trans ?_⟩
      rw [if_neg]
      rintro ⟨isState, -⟩
      cases isState.symm.trans isKind

omit justified in
/-- Without receiving anything, only an epoch block has a source. -/
theorem blockSource_of_unreceived (suits : Suits constants hint tables.blocks stored)
    (keeps : ∀ source, stored.transfer ≠ .receives source) : blockSource tables stored.block
      = .ok (if stored.sideband.details.isEpoch then stored.block.link.asBlockHash else .zero) := by
  have justified := suits.justified
  cases form : stored.block.content with
  | receive content | opening content =>
      exact absurd (by rw [StoredBlock.transfer, form]) (keeps content.source)
  | send | change =>
      have legacy := congrArg BlockKind.isLegacy (Block.kind_of_form form)
      rw [(sources_of_legacy constants tables legacy).1, justified.legacy legacy, Block.source,
        form]
      rfl
  | state content =>
      rw [(sources_of_state coherent justified form).1, Block.link_of_form form]
      have transfer : stored.transfer = _ := state_transfer form
      have permitted := (state_permitted form suits).2
      cases isEpoch : stored.sideband.details.isEpoch with
      | true =>
          have neither := (justified.upgrades isEpoch).1
          have notSend : stored.sideband.details.isSend = false := by
            rw [← Bool.not_eq_true]
            intro spends
            rw [if_pos spends, neither] at transfer
            cases transfer
          rw [notSend]
          rfl
      | false =>
          rw [isEpoch] at permitted
          have receives := permitted.receives
          cases isSend : stored.sideband.details.isSend with
          | true => rfl
          | false =>
              rw [isSend] at transfer receives
              cases unlinked : content.link.isZero with
              | true =>
                  rw [(Identifier.isZero_iff _).mp unlinked]
                  rfl
              | false =>
                  rw [unlinked] at receives
                  rw [receives] at transfer
                  exact absurd transfer (keeps _)

end Answers

/-! ## Sources against what was settled -/

/-- What a ledger answers about the source of a stored block, against what the call settled that
took the block in. -/
structure Taking.Sourced (taking : Taking) (constants : LedgerConstants) (tables : Tables)
    (stored : StoredBlock) : Prop where
  /-- What was settled is a send to the owner of the block, and the source of the block. -/
  received : ∀ key, taking.Settles key → key.account = taking.receipt.account ∧
    (∃ send, tables.blocks.get? key.hash = some send ∧ isSend tables send.block = .ok true ∧
      blockDestination tables send.block = .ok key.account) ∧
    blockSource tables stored.block = .ok key.hash
  unreceived : (¬ ∃ key, taking.Settles key) → blockSource tables stored.block
    = .ok (if stored.sideband.details.isEpoch then stored.block.link.asBlockHash else .zero)
  upgrades : stored.sideband.details.isEpoch →
    (¬ ∃ key, taking.Settles key) ∧ stored.block.HasEpochLink constants
  depends : ∃ source, blockSource tables stored.block = .ok source ∧
    dependentBlocks constants tables stored.block
      = .ok (stored.block.previous, if stored.block.HasEpochLink constants then .zero else source)

section Recalling

variable {constants : LedgerConstants} {tables : Tables} {stored : StoredBlock} {taking : Taking}

/-- A stored send answers that it is one, and where it goes. -/
theorem send_answers {hash : BlockHash} {send : StoredBlock} {destination : Account}
    (coherent : tables.Coherent constants) (sound : constants.Sound)
    (found : tables.blocks.get? hash = some send) (sends : send.transfer = .sends destination) :
    isSend tables send.block = .ok true ∧ blockDestination tables send.block = .ok destination := by
  have justified := coherent.justified found (ne_genesis_of_sends coherent sound found sends)
  exact ⟨isSend_of_sends coherent justified sends, (blockDestination_eq coherent justified sends).2⟩

namespace Taking.TakesIn

variable (taken : taking.TakesIn constants stored tables) (sound : constants.Sound)

include taken sound

theorem settles_iff {key : ReceivableKey} : taking.Settles key ↔
    stored.transfer = .receives key.hash ∧ key.account = taking.receipt.account := by
  obtain ⟨entry, accepted, room, -, isStored, isAfter⟩ := taken.exists_entry sound
  have admissible := accepted.admissible (taken.reached.coherent sound) sound room taking.now
    taken.named
  rw [← isStored] at admissible
  rw [Settles, isAfter, taken.owner_eq sound]
  exact settles_append_iff admissible

theorem sourced (notGenesis : stored.hash ≠ constants.genesis.hash) :
    taking.Sourced constants tables stored := by
  have reachable := taken.keeps.reachable taken.reached_after
  have coherent := reachable.coherent sound
  have found := taken.keeps.found_last
  have justified := coherent.justified found notGenesis
  obtain ⟨hint, suits⟩ := reachable.suits sound found notGenesis
  exact
    { received := fun key settles => by
        obtain ⟨receives, isOwner⟩ := (taken.settles_iff sound).mp settles
        obtain ⟨send, sendFound, sends, -⟩ := settles_of_receives justified receives
        refine ⟨isOwner, ⟨send, sendFound, ?_⟩, (blockSource_eq coherent justified receives).2⟩
        rw [isOwner, taken.owner_eq sound]
        exact send_answers coherent sound sendFound sends
      unreceived := fun nothing =>
        blockSource_of_unreceived coherent suits fun source receives =>
          nothing ⟨⟨taking.receipt.account, source⟩,
            (taken.settles_iff sound).mpr ⟨receives, rfl⟩⟩
      upgrades := fun isEpoch => by
        obtain ⟨content, form, -⟩ := upgrading_of_isEpoch coherent sound found isEpoch suits
        refine ⟨?_, Block.kind_of_form form, ?_⟩
        · rintro ⟨key, settles⟩
          have receives := ((taken.settles_iff sound).mp settles).1
          rw [(justified.upgrades isEpoch).1] at receives
          cases receives
        · rw [Block.link_of_form form]
          exact (Table.contains_eq_true_iff _ _).mpr (exists_upgrade form suits isEpoch)
      depends := dependentBlocks_eq coherent justified }

end Taking.TakesIn

end Recalling

/-- Whichever call took a stored block in, the source of the block is the send that the call
settled, or an epoch link, or nothing, and the block depends on its source, unless this is an
epoch link. -/
theorem Reachable.sources_attributed {constants : LedgerConstants} {tables : Tables}
    {hash : BlockHash} {stored : StoredBlock} (reachable : Reachable constants tables)
    (sound : constants.Sound) (found : tables.blocks.get? hash = some stored)
    (notGenesis : hash ≠ constants.genesis.hash) :
    (∃ taking : Taking, taking.TakesIn constants stored tables) ∧
      ∀ taking : Taking, taking.TakesIn constants stored tables →
        taking.Sourced constants tables stored := by
  have isHash := ((reachable.coherent sound).keyed found).1
  exact ⟨reachable.exists_taking sound found notGenesis,
    fun taking taken => taken.sourced sound (isHash ▸ notGenesis)⟩

/-- The opening block of the development network receives the send. -/
theorem devOpening_sources_attributed : ∃ stored : StoredBlock,
    devReceived.blocks.get? devOpening.hash = some stored ∧
      (∃ taking : Taking, taking.TakesIn .dev stored devReceived) ∧
        ∀ taking : Taking, taking.TakesIn .dev stored devReceived →
          taking.Sourced .dev devReceived stored := by
  have coherent := reachable_devSent.coherent dev_sound
  have opens : Grows .dev devSent ⟨.zero, .valid, devOpening⟩ devReceived :=
    ⟨_, devOpening_progresses, rfl⟩
  obtain ⟨sideband, found⟩ := opens.found_next coherent dev_sound dev_named.2
  exact ⟨_, found, Reachable.sources_attributed reachable_devReceived dev_sound found
    (opens.ne_genesis coherent dev_sound dev_named.2)⟩

section Development

open LedgerConstants

private theorem devUpgrade_asked :
    blockSource devUpgraded devUpgrade = .ok (epochLink "epoch v1 block").asBlockHash ∧
      (epochLink "epoch v1 block").asBlockHash ≠ .zero ∧
      dependentBlocks .dev devUpgraded devUpgrade = .ok (dev.genesis.hash, .zero) := by
  decide +kernel

/-- The epoch block of the development network receives nothing, but has a source, which it does
not depend on. -/
theorem devUpgrade_source_is_link : ∃ (stored : StoredBlock) (taking : Taking),
    devUpgraded.blocks.get? devUpgrade.hash = some stored ∧ stored.block = devUpgrade ∧
      devUpgrade.hash ≠ dev.genesis.hash ∧
      taking.TakesIn .dev stored devUpgraded ∧ (¬ ∃ key, taking.Settles key) ∧
      blockSource devUpgraded devUpgrade = .ok (epochLink "epoch v1 block").asBlockHash ∧
      (epochLink "epoch v1 block").asBlockHash ≠ .zero ∧
      dependentBlocks .dev devUpgraded devUpgrade = .ok (dev.genesis.hash, .zero) := by
  have coherent := coherent_started dev_sound .zero .empty none
  have grows : Grows .dev (started .dev .zero .empty none) ⟨.zero, .validEpoch, devUpgrade⟩
      devUpgraded := ⟨_, devUpgrade_progresses, rfl⟩
  obtain ⟨sideband, found⟩ := grows.found_next coherent dev_sound devUpgrade_named
  refine ⟨_, ⟨.zero, .validEpoch, started .dev .zero .empty none, _, devUpgraded⟩, found, rfl,
    grows.ne_genesis coherent dev_sound devUpgrade_named,
    ⟨.started .zero .empty none, devUpgrade_named, devUpgrade_progresses, rfl, .here found⟩, ?_,
    devUpgrade_asked⟩
  rintro ⟨key, waits, -⟩
  cases waits

end Development

end Ledger

end AccountChains
