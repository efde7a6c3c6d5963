import AccountChains.Proofs.Ledger.Provenance

/-!
Contract: the slots of blocks, and what happens to a second block for a slot.

The slot of a block, its qualified root, is known from the block alone. For a block
that suits a ledger it says as much as the account and the block before it: the first
block of an account competes for the account, any other block for its predecessor. A
block is refused as a fork if its slot is taken, and two blocks with different slots
leave each other alone.

Owns: `slotOf`, the slots of stored blocks and the way back from a slot, `Contested`,
and when two blocks that are both acceptable exclude each other. Does not own: undoing
the block that has a slot.
-/

namespace AccountChains

open BlockTable Tables

theorem Identifier.asAccount_asRoot (account : Account) : account.asRoot.asAccount = account := rfl

/-- The slot that is next to a given block in the chain of an account, or first without one. -/
def slotOf (previous : BlockHash) (account : Account) : QualifiedRoot :=
  ⟨if previous.isZero then account.asRoot else previous.asRoot, previous⟩

theorem slotOf_first (account : Account) : slotOf .zero account = ⟨account.asRoot, .zero⟩ := rfl

theorem slotOf_later {previous : BlockHash} (later : previous ≠ .zero) (account : Account) :
    slotOf previous account = ⟨previous.asRoot, previous⟩ := by
  rw [slotOf, if_neg (mt (Identifier.isZero_iff previous).mp later)]

theorem account_of_slotOf_first {left right : Account}
    (same : slotOf .zero left = slotOf .zero right) : left = right := by
  obtain ⟨⟩ := left
  obtain ⟨⟩ := right
  injection same with root
  injection root with value
  exact congrArg Identifier.mk value

/-- The genesis block has the first slot of its account. -/
theorem LedgerConstants.Sound.qualifiedRoot_eq {constants : LedgerConstants}
    (sound : constants.Sound) :
    constants.genesis.qualifiedRoot = slotOf .zero constants.genesisAccount := by
  obtain ⟨content, opens, owner⟩ := sound.opens
  rw [slotOf_first, ← owner]
  simp [Block.qualifiedRoot, Block.root, Block.previous, opens, Content.root, Content.previous]

namespace Ledger

variable {constants : LedgerConstants} {hint : Verification} {tables : Tables}
  {stored other : StoredBlock}

/-! ## The slot of a block that suits -/

/-- The slot of a block that suits a ledger is next to the block before it, in the chain of its
account. -/
theorem Suits.qualifiedRoot_eq {blocks : BlockTable}
    (suits : Suits constants hint blocks stored) :
    stored.block.qualifiedRoot = slotOf stored.block.previous stored.sideband.account := by
  obtain ⟨⟨content, signature, work⟩, sideband⟩ := stored
  have settles := suits.justified.settles
  have reflects := suits.justified.reflects
  have permitted := suits.permitted
  have first := suits.justified.first
  cases content with
  | send content =>
      simp only [Settles, StoredBlock.transfer] at settles
      exact (slotOf_later settles.1 _).symm
  | receive content =>
      have later : content.previous ≠ .zero := by
        intro isFirst
        simpa [Block.representative?, Content.representative?] using (first isFirst).2
      exact (slotOf_later later _).symm
  | opening content =>
      simp only [Reflects] at reflects
      rw [← reflects]
      rfl
  | change content =>
      simp only [Permitted] at permitted
      exact (slotOf_later permitted _).symm
  | state content =>
      simp only [Reflects] at reflects
      rw [← reflects.1]
      rfl

/-- Every stored block has the slot next to the block before it. -/
theorem Reachable.qualifiedRoot_eq {hash : BlockHash} (reachable : Reachable constants tables)
    (sound : constants.Sound) (found : tables.blocks.get? hash = some stored) :
    stored.block.qualifiedRoot = slotOf stored.block.previous stored.sideband.account := by
  by_cases isGenesis : hash = constants.genesis.hash
  · obtain ⟨now, isStored⟩ := (reachable.coherent sound).genesis
    rw [← isGenesis, found] at isStored
    obtain rfl := Option.some.inj isStored
    rw [sound.qualifiedRoot_eq, sound.previous_eq]
    rfl
  · obtain ⟨-, -, suits⟩ := reachable.reachableBy.takenIn sound found isGenesis
    exact suits.qualifiedRoot_eq

/-- A slot that is taken leads to the block that has it. -/
theorem Reachable.successor?_eq {hash : BlockHash} (reachable : Reachable constants tables)
    (sound : constants.Sound) (found : tables.blocks.get? hash = some stored) :
    successor? tables stored.block.qualifiedRoot = .ok (some hash) := by
  have coherent := reachable.coherent sound
  rw [reachable.qualifiedRoot_eq sound found]
  by_cases isFirst : stored.block.previous = .zero
  · obtain ⟨record, belongs⟩ := coherent.belongs found
    simp [isFirst, successor?, Identifier.asAccount_asRoot, belongs.found, belongs.first isFirst,
      slotOf_first, AccountChains.stored, Store.account?, Except.mapError, bind, Except.bind, pure,
      Except.pure]
  · simp [slotOf_later isFirst, successor?, isFirst, coherent.successor_of found isFirst,
      AccountChains.stored, Store.successor?, Except.mapError]

/-- The root of a block that is not the first of its chain is the block before it. -/
theorem root_of_later {block : Block} (later : block.previous ≠ .zero) :
    block.root = block.previous.asRoot := by
  unfold Block.root Block.previous at *
  cases form : block.content with
  | send | receive | change => rfl
  | opening content => exact absurd (by rw [form]; rfl) later
  | state content =>
      rw [form] at later
      simp only [Content.root, Content.previous] at later ⊢
      rw [if_neg (mt (Identifier.isZero_iff _).mp later)]

/-- A slot that leads to a block is the slot of that block. -/
theorem slot_of_successor? (coherent : tables.Coherent constants) {block : Block}
    {hash : BlockHash} (leads : successor? tables block.qualifiedRoot = .ok (some hash)) :
    ∃ occupant, tables.blocks.get? hash = some occupant ∧
      slotOf occupant.block.previous occupant.sideband.account = block.qualifiedRoot := by
  by_cases isFirst : block.previous = .zero
  · cases recorded : tables.accounts.get? block.root.asAccount with
    | none =>
        -- No block follows the one that is not there.
        have linked : tables.successors.get? .zero = some hash := by
          simpa [successor?, Block.qualifiedRoot, isFirst, recorded, AccountChains.stored,
            Store.account?, Store.successor?, Except.mapError, bind, Except.bind] using leads
        exact absurd rfl ((coherent.linked _ _).mp linked).1
    | some record =>
        have opens : record.openBlock = hash := by
          simpa [successor?, Block.qualifiedRoot, isFirst, recorded, AccountChains.stored,
            Store.account?, Except.mapError, bind, Except.bind, pure, Except.pure] using leads
        obtain ⟨head, describes⟩ := coherent.recorded recorded
        obtain ⟨first, found, owner, noPrevious⟩ := describes.opening
        refine ⟨first, opens ▸ found, ?_⟩
        rw [noPrevious, owner, slotOf_first, Block.qualifiedRoot, isFirst]
        rfl
  · have linked : tables.successors.get? block.previous = some hash := by
      simpa [successor?, Block.qualifiedRoot, isFirst, AccountChains.stored, Store.successor?,
        Except.mapError] using leads
    obtain ⟨-, occupant, found, previous⟩ := (coherent.linked _ _).mp linked
    refine ⟨occupant, found, ?_⟩
    rw [previous, slotOf_later isFirst, Block.qualifiedRoot, root_of_later isFirst]

section Competing

variable {otherHint : Verification} {blocks : BlockTable}
  (suits : Suits constants hint blocks stored) (otherSuits : Suits constants otherHint blocks other)

include suits otherSuits

/-- Blocks that build on the same block belong to the same account. -/
theorem Suits.account_eq (samePrevious : stored.block.previous = other.block.previous)
    (later : stored.block.previous ≠ .zero) :
    stored.sideband.account = other.sideband.account := by
  obtain ⟨before, found, follows⟩ := suits.justified.follows later
  obtain ⟨otherBefore, otherFound, otherFollows⟩ :=
    otherSuits.justified.follows (samePrevious ▸ later)
  rw [← samePrevious, found] at otherFound
  obtain rfl := Option.some.inj otherFound
  exact follows.account.symm.trans otherFollows.account

/-- Two blocks that suit one ledger have the same slot if they come after the same block in the
chain of the same account. -/
theorem Suits.same_slot_iff : stored.block.qualifiedRoot = other.block.qualifiedRoot ↔
    stored.block.previous = other.block.previous ∧
      stored.sideband.account = other.sideband.account := by
  rw [suits.qualifiedRoot_eq, otherSuits.qualifiedRoot_eq]
  constructor
  · intro same
    have samePrevious : stored.block.previous = other.block.previous :=
      congrArg QualifiedRoot.previous same
    refine ⟨samePrevious, ?_⟩
    by_cases isFirst : stored.block.previous = .zero
    · rw [← samePrevious, isFirst] at same
      exact account_of_slotOf_first same
    · exact suits.account_eq otherSuits samePrevious isFirst
  · rintro ⟨samePrevious, sameAccount⟩
    rw [samePrevious, sameAccount]

end Competing

/-! ## A slot that is taken -/

/-- Another block has the slot of a block. -/
inductive Contested (blocks : BlockTable) (stored : StoredBlock) : Prop where
  | by {hash : BlockHash} {other : StoredBlock} (found : blocks.get? hash = some other)
      (previous : other.block.previous = stored.block.previous)
      (account : other.sideband.account = stored.sideband.account) : Contested blocks stored

section Contesting

variable (coherent : tables.Coherent constants) (contested : Contested tables.blocks stored)

include coherent contested

theorem Contested.exists_record :
    ∃ record, tables.accounts.get? stored.sideband.account = some record := by
  obtain ⟨found, -, account⟩ := contested
  obtain ⟨record, belongs⟩ := coherent.belongs found
  exact ⟨record, account ▸ belongs.found⟩

theorem Contested.exists_successor (later : stored.block.previous ≠ .zero) :
    ∃ next, tables.successors.get? stored.block.previous = some next := by
  obtain ⟨found, previous, -⟩ := contested
  exact ⟨_, previous ▸ coherent.successor_of found (previous ▸ later)⟩

/-- A block whose slot is taken does not come after the head of its account. -/
theorem Contested.previous_ne_head {record : AccountRecord}
    (recorded : tables.accounts.get? stored.sideband.account = some record) :
    stored.block.previous ≠ record.head := by
  intro isHead
  obtain ⟨head, describes⟩ := coherent.recorded recorded
  have later : stored.block.previous ≠ .zero := isHead ▸ (coherent.keyed describes.found).2
  obtain ⟨next, linked⟩ := contested.exists_successor coherent later
  simp [isHead, describes.last] at linked

theorem Contested.unfronted (later : stored.block.previous ≠ .zero) :
    tables.frontiers.get? stored.block.previous = none := by
  obtain ⟨next, linked⟩ := contested.exists_successor coherent later
  cases fronted : tables.frontiers.get? stored.block.previous with
  | none => rfl
  | some account =>
      obtain ⟨-, -, -, -, last⟩ := (coherent.fronted _ _).mp fronted
      simp [last] at linked

end Contesting

/-! ## Judging a second block for a slot -/

/-- Judging refuses a block as a fork. -/
def Forks (constants : LedgerConstants) (hint : Verification) (block : Block) (tables : Tables) :
    Prop :=
  ∃ receipt, judge constants hint block tables = .ok (.refused receipt) ∧ receipt.verdict = .fork

section Forking

variable {block : Block} {sideband : Sideband}
  (missing : tables.blocks.contains block.hash = false)

include missing

/-- A legacy block is a fork if the block before it is no head of a legacy chain. -/
theorem forks_of_unfronted {before : StoredBlock} (legacy : block.kind.isLegacy)
    (later : block.previous ≠ .zero) (found : tables.blocks.get? block.previous = some before)
    (isLegacy : before.block.kind.isLegacy)
    (unfronted : tables.frontiers.get? block.previous = none) :
    Forks constants hint block tables := by
  obtain ⟨rest, judged⟩ := exists_judgeAfter hint tables constants legacy later
  have follows := (mayFollow_eq legacy later before.block.kind).trans isLegacy
  rw [judgeAfter_of_found missing found follows, unfronted] at judged
  exact ⟨_, judged, rfl⟩

theorem forks_of_opened {content : OpeningContent} {record : AccountRecord}
    (form : block.content = .opening content)
    (signed : isVouchedOrSigned hint .valid block content.account)
    (source : tables.blocks.contains content.source)
    (recorded : tables.accounts.get? content.account = some record) :
    Forks constants hint block tables := by
  refine ⟨⟨.fork, .zero, .zero, .zero, .valid, .zero⟩, ?_, rfl⟩
  unfold judge
  simp only [form, judgeOpening, AccountChains.stored, Store.hasBlock, Store.hasAccount,
    Store.account?, Except.mapError, Except.map, bind, Except.bind, pure, Except.pure]
  simp [missing, signed, source, recorded, refuse]

section States

variable {content : StateContent} {record : AccountRecord} (owned : content.account ≠ .zero)
  (recorded : tables.accounts.get? content.account = some record)
  (notHead : content.previous ≠ record.head)

include owned recorded notHead

theorem judgeTransfer_fork (signed : isVouchedOrSigned hint .valid block content.account)
    (present : content.previous ≠ .zero → tables.blocks.contains content.previous) :
    judgeTransfer hint block content tables
      = .ok (refuseAfter .fork .valid record.balance) := by
  simp only [judgeTransfer, AccountChains.stored, Store.hasBlock, Store.account?, recorded,
    Except.mapError, bind, Except.bind, pure, Except.pure]
  by_cases isFirst : content.previous = .zero
  · simp [missing, signed, owned, isFirst]
  · simp [missing, signed, owned, isFirst, present isFirst, notHead]

theorem judgeUpgrade_fork (signed : isVouchedOrSigned hint .validEpoch block
      ((constants.epochs.signer? content.link).getD .zero)) :
    judgeUpgrade constants hint block content tables
      = .ok (refuseAfter .fork .validEpoch record.balance) := by
  simp only [judgeUpgrade, AccountChains.stored, Store.hasBlock, Store.account?, recorded,
    Except.mapError, bind, Except.bind, pure, Except.pure]
  simp [missing, signed, owned, notHead]

end States

end Forking

section Contesting

variable {block : Block} {sideband : Sideband} (coherent : tables.Coherent constants)
  (suits : Suits constants hint tables.blocks ⟨block, sideband⟩)
  (contested : Contested tables.blocks ⟨block, sideband⟩)
  (missing : tables.blocks.contains block.hash = false)

include coherent suits contested missing

theorem forks_of_contested_legacy (legacy : block.kind.isLegacy) (later : block.previous ≠ .zero) :
    Forks constants hint block tables := by
  obtain ⟨before, found, follows⟩ := suits.justified.follows later
  exact forks_of_unfronted missing legacy later found (follows.legacy legacy)
    (contested.unfronted coherent later)

theorem forks_of_contested_opening {content : OpeningContent}
    (form : block.content = .opening content) : Forks constants hint block tables := by
  have isPlain : sideband.details = .plain :=
    suits.justified.legacy (congrArg BlockKind.isLegacy (Block.kind_of_form form))
  have reflects := suits.justified.reflects
  simp only [Reflects, form] at reflects
  obtain ⟨send, found⟩ := suits.justified.source_found
    (by simp only [StoredBlock.transfer, form] : StoredBlock.transfer ⟨block, sideband⟩
      = .receives content.source)
  obtain ⟨record, recorded⟩ := contested.exists_record coherent
  exact forks_of_opened missing form (reflects ▸ signed_of_plain suits.authorized isPlain)
    ((Table.contains_eq_true_iff _ _).mpr ⟨send, found⟩) (reflects ▸ recorded)

theorem forks_of_contested_state {content : StateContent}
    (form : block.content = .state content) : Forks constants hint block tables := by
  have previous : block.previous = content.previous := Block.previous_of_form form
  obtain ⟨owner, balance, -⟩ := state_reflects form suits
  obtain ⟨owned, permitted⟩ := state_permitted form suits
  obtain ⟨record, recorded⟩ := contested.exists_record coherent
  have notHead := contested.previous_ne_head coherent recorded
  rw [← owner] at recorded
  have authorized := suits.authorized
  unfold Authorized at authorized
  cases isEpoch : sideband.details.isEpoch with
  | true =>
      simp only [isEpoch, if_true, Block.link_of_form form] at authorized
      have settles := suits.justified.settles
      rw [Settles, (suits.justified.upgrades isEpoch).1] at settles
      have upgrades : judge constants hint block tables
          = judgeUpgrade constants hint block content tables :=
        judge_eq_judgeUpgrade form coherent.zero_absent
          ((Table.contains_eq_true_iff _ _).mpr (exists_upgrade form suits isEpoch))
          (balance.trans settles.1) suits.justified.previous_found
      exact ⟨_, upgrades.trans
        (judgeUpgrade_fork missing owned recorded (previous ▸ notHead) authorized), rfl⟩
  | false =>
      simp only [isEpoch, Bool.false_eq_true, if_false, ← owner] at authorized
      rw [if_neg (by simp [isEpoch])] at permitted
      have transfers : judge constants hint block tables
          = judgeTransfer hint block content tables :=
        judge_eq_judgeTransfer form coherent.zero_absent permitted.moves
          suits.justified.previous_found
      have present (later : content.previous ≠ .zero) : tables.blocks.contains content.previous :=
        (Table.contains_eq_true_iff _ _).mpr
          (previous ▸ suits.justified.previous_found (previous ▸ later))
      exact ⟨_, transfers.trans
        (judgeTransfer_fork missing owned recorded (previous ▸ notHead) authorized present), rfl⟩

/-- A block that suits a ledger is refused as a fork if its slot is taken, whatever the kinds of
the two blocks are. -/
theorem forks_of_contested : Forks constants hint block tables := by
  cases form : block.content with
  | send content =>
      have settles := suits.justified.settles
      simp only [Settles, StoredBlock.transfer, form] at settles
      exact forks_of_contested_legacy coherent suits contested missing
        (congrArg BlockKind.isLegacy (Block.kind_of_form form)) settles.1
  | receive content =>
      refine forks_of_contested_legacy coherent suits contested missing
        (congrArg BlockKind.isLegacy (Block.kind_of_form form)) fun isFirst => ?_
      simpa [Block.representative?, form, Content.representative?]
        using (suits.justified.first isFirst).2
  | opening content => exact forks_of_contested_opening coherent suits contested missing form
  | change content =>
      have permitted := suits.permitted
      simp only [Permitted, form] at permitted
      exact forks_of_contested_legacy coherent suits contested missing
        (congrArg BlockKind.isLegacy (Block.kind_of_form form)) permitted
  | state content => exact forks_of_contested_state coherent suits contested missing form

end Contesting

/-! ## Two acceptable blocks -/

/-- A block suits a ledger, and its place is free. -/
structure Fits (constants : LedgerConstants) (hint : Verification) (tables : Tables)
    (stored : StoredBlock) : Prop where
  named : stored.hash ≠ .zero
  suits : Suits constants hint tables.blocks stored
  vacant : Vacant constants.genesis.hash tables.blocks stored

section Rivals

variable {otherHint : Verification} (coherent : tables.Coherent constants)
  (sound : constants.Sound)

include coherent sound

theorem Fits.coherent_append (fits : Fits constants hint tables stored) :
    (tables.append stored).Coherent constants :=
  coherent.append sound (fits.suits.admissible coherent sound fits.vacant fits.named)

/-- A block that fits makes progress at the time in its sideband. -/
theorem Fits.grows (fits : Fits constants hint tables stored) :
    Grows constants tables ⟨stored.sideband.timestamp, hint, stored.block⟩ (tables.append stored) :=
  fits.suits.grows coherent sound fits.vacant fits.named stored.sideband.timestamp

/-- An offer makes progress only if its block fits. -/
theorem Grows.fits {offer : Offer} {next : Tables} (grows : Grows constants tables offer next)
    (named : offer.hash ≠ .zero) : ∃ stored hint,
      offer = ⟨stored.sideband.timestamp, hint, stored.block⟩ ∧
        Fits constants hint tables stored ∧ next = tables.append stored := by
  obtain ⟨sideband, timed, suits, vacant, isNext⟩ := grows.suits coherent sound named
  obtain ⟨now, hint, block⟩ := offer
  obtain rfl : sideband.timestamp = now := timed
  exact ⟨⟨block, sideband⟩, hint, rfl, ⟨named, suits, vacant⟩, isNext⟩

variable (fits : Fits constants hint tables stored)
  (otherFits : Fits constants otherHint tables other)

include fits otherFits

/-- Blocks that fit into the chain of one account come after the same block. -/
theorem Fits.previous_eq (sameAccount : stored.sideband.account = other.sideband.account) :
    stored.block.previous = other.block.previous := by
  have placed := (fits.suits.admissible coherent sound fits.vacant fits.named).placed
  have otherPlaced :=
    (otherFits.suits.admissible coherent sound otherFits.vacant otherFits.named).placed
  cases placed with
  | first absent isFirst =>
      cases otherPlaced with
      | first _ otherFirst => exact isFirst.trans otherFirst.symm
      | next recorded => simp [← sameAccount, absent] at recorded
  | next recorded isNext =>
      cases otherPlaced with
      | first absent => simp [← sameAccount, recorded] at absent
      | next otherRecorded otherNext =>
          rw [← sameAccount, recorded] at otherRecorded
          obtain rfl := Option.some.inj otherRecorded
          exact isNext.trans otherNext.symm

/-- What a block suits is still there after another block. -/
theorem Fits.suits_append : Suits constants otherHint (tables.append stored).blocks other := by
  have kept {hash : BlockHash} {found : StoredBlock}
      (present : tables.blocks.get? hash = some found) :
      (tables.append stored).blocks.get? hash = some found :=
    found_append_of_found fits.vacant.fresh present
  refine suits_agrees coherent (fits.coherent_append coherent sound) sound
    (Within.agrees (fun present => ⟨_, kept present, .refl _⟩) (Within.refl _)) (.refl other) ?_
    otherFits.suits fun source receives => ?_
  · intro later
    obtain ⟨before, found⟩ := otherFits.suits.justified.previous_found later
    exact ⟨before, kept found⟩
  · obtain ⟨send, found⟩ := otherFits.suits.justified.source_found receives
    exact ⟨send, kept found⟩

variable (different : stored.hash ≠ other.hash)

include different

omit coherent sound fits in
theorem Fits.missing_append : (tables.append stored).blocks.get? other.hash = none := by
  refine Option.eq_none_iff_forall_ne_some.mpr fun found present => ?_
  rcases found_append.mp present with ⟨same, -⟩ | ⟨-, present⟩
  · exact different same.symm
  · simp [otherFits.vacant.fresh] at present

/-- The second of two blocks with one slot is a fork. -/
theorem Fits.forks (sameSlot : stored.block.qualifiedRoot = other.block.qualifiedRoot) :
    Forks constants otherHint other.block (tables.append stored) := by
  obtain ⟨previous, account⟩ := (fits.suits.same_slot_iff otherFits.suits).mp sameSlot
  exact forks_of_contested (fits.coherent_append coherent sound)
    (fits.suits_append coherent sound otherFits)
    (.by (found_append.mpr (.inl ⟨rfl, rfl⟩)) previous account)
    ((Table.contains_eq_false_iff _ _).mpr (otherFits.missing_append different))

variable (otherSlot : stored.block.qualifiedRoot ≠ other.block.qualifiedRoot)

include otherSlot

omit different in
/-- Blocks with different slots belong to different accounts. -/
theorem Fits.account_ne : stored.sideband.account ≠ other.sideband.account := by
  intro sameAccount
  exact otherSlot ((fits.suits.same_slot_iff otherFits.suits).mpr
    ⟨fits.previous_eq coherent sound otherFits sameAccount, sameAccount⟩)

/-- A block with another slot fits as well as before: it receives nothing that the first block
receives, since a send has one destination. -/
theorem Fits.append : Fits constants otherHint (tables.append stored) other where
  named := otherFits.named
  suits := fits.suits_append coherent sound otherFits
  vacant := by
    have account := fits.account_ne coherent sound otherFits otherSlot
    refine ⟨otherFits.missing_append different, ?_, ?_⟩
    · intro hash found present previous sameAccount
      rcases found_append.mp present with ⟨-, rfl⟩ | ⟨-, present⟩
      · exact account sameAccount
      · exact otherFits.vacant.slot present previous sameAccount
    · intro source receives hash found present notGenesis alsoReceives
      rcases found_append.mp present with ⟨-, rfl⟩ | ⟨-, present⟩
      · have settles := fits.suits.justified.settles
        have otherSettles := otherFits.suits.justified.settles
        simp only [Settles, alsoReceives] at settles
        simp only [Settles, receives] at otherSettles
        obtain ⟨send, sendFound, sends, -⟩ := settles
        obtain ⟨otherSend, otherFound, otherSends, -⟩ := otherSettles
        obtain rfl := Option.some.inj (sendFound.symm.trans otherFound)
        exact account (Transfer.sends.inj (sends.symm.trans otherSends))
      · exact otherFits.vacant.source receives _ _ present notGenesis alsoReceives

/-- The order of two blocks with different slots makes no difference. -/
theorem Fits.append_comm :
    (tables.append stored).append other = (tables.append other).append stored := by
  have coherentNext := fits.coherent_append coherent sound
  have otherNext := otherFits.coherent_append coherent sound
  have second := fits.append coherent sound otherFits different otherSlot
  have first := otherFits.append coherent sound fits different.symm otherSlot.symm
  refine (second.coherent_append coherentNext sound).eq_of_blocks
    (first.coherent_append otherNext sound) ?_ rfl rfl
  ext hash found
  simp only [found_append]
  grind

end Rivals

/-- Of two acceptable blocks with one slot, the second one is a fork and changes nothing. With
different slots both make progress in either order, and the ledger is the same in the end. -/
theorem Reachable.exclusive_by_slot {first second : Offer} {afterFirst afterSecond : Tables}
    (reachable : Reachable constants tables) (sound : constants.Sound)
    (firstGrows : Grows constants tables first afterFirst)
    (secondGrows : Grows constants tables second afterSecond)
    (firstNamed : first.hash ≠ .zero) (secondNamed : second.hash ≠ .zero)
    (different : first.hash ≠ second.hash) :
    (first.block.qualifiedRoot = second.block.qualifiedRoot → ∃ receipt,
      (process constants second.now second.hint second.block).run afterFirst
        = (.ok receipt, afterFirst) ∧ receipt.verdict = .fork) ∧
    (first.block.qualifiedRoot ≠ second.block.qualifiedRoot → ∃ final,
      Grows constants afterFirst second final ∧ Grows constants afterSecond first final) := by
  have coherent := reachable.coherent sound
  obtain ⟨stored, hint, rfl, fits, rfl⟩ := firstGrows.fits coherent sound firstNamed
  obtain ⟨other, otherHint, rfl, otherFits, rfl⟩ := secondGrows.fits coherent sound secondNamed
  refine ⟨fun sameSlot => ?_, fun otherSlot => ?_⟩
  · obtain ⟨receipt, judged, isFork⟩ := fits.forks coherent sound otherFits different sameSlot
    exact ⟨receipt, by rw [run_process, judged], isFork⟩
  · have thenOther := fits.append coherent sound otherFits different otherSlot
    have thenStored := otherFits.append coherent sound fits different.symm otherSlot.symm
    refine ⟨_, thenOther.grows (fits.coherent_append coherent sound) sound, ?_⟩
    rw [fits.append_comm coherent sound otherFits different otherSlot]
    exact thenStored.grows (otherFits.coherent_append coherent sound) sound

section Development

/-- The genesis account keeps something, where it sends all it has in `devSend`. -/
def devRival : Block :=
  { content := .send
      { previous := LedgerConstants.dev.genesis.hash, destination := ⟨9⟩, balance := .ofNat 1 }
    signature := .zero
    work := 0 }

/-- The genesis account names another representative after `devSend`. -/
def devChange : Block :=
  { content := .change { previous := devSend.hash, representative := ⟨8⟩ }
    signature := .zero
    work := 0 }

/-- What the two blocks come to, at the genesis block and after the send. -/
private theorem devRivals_evaluated :
    devRival.hash ≠ .zero ∧ devChange.hash ≠ .zero ∧ devSend.hash ≠ devRival.hash ∧
      devOpening.hash ≠ devChange.hash ∧
      ((process .dev .zero .valid devRival).run (started .dev .zero .empty none)).1
        = .ok ⟨.progress, LedgerConstants.dev.genesisAccount, Amount.greatest.wrappingSub (.ofNat 1),
          ⟨9⟩, .valid, .greatest⟩ ∧
      ((process .dev .zero .valid devChange).run devSent).1
        = .ok ⟨.progress, LedgerConstants.dev.genesisAccount, .zero, .zero, .valid, .zero⟩ := by
  decide +kernel

/-- Two sends of one account exclude each other; an opening and a change of another account do
not. -/
theorem dev_exclusive_by_slot :
    (∃ receipt, (process .dev .zero .valid devRival).run devSent = (.ok receipt, devSent) ∧
      receipt.verdict = .fork) ∧
    ∃ final, Grows .dev devReceived ⟨.zero, .valid, devChange⟩ final ∧
      Grows .dev (leftBy (process .dev .zero .valid devChange) devSent)
        ⟨.zero, .valid, devOpening⟩ final := by
  obtain ⟨rivalNamed, changeNamed, differentSend, differentOpening, rival, change⟩ :=
    devRivals_evaluated
  have sends : Grows .dev (started .dev .zero .empty none) ⟨.zero, .valid, devSend⟩ devSent :=
    ⟨_, devSend_progresses, rfl⟩
  have rivals : Grows .dev (started .dev .zero .empty none) ⟨.zero, .valid, devRival⟩ _ :=
    ⟨_, run_eq_leftBy rival, rfl⟩
  have opens : Grows .dev devSent ⟨.zero, .valid, devOpening⟩ devReceived :=
    ⟨_, devOpening_progresses, rfl⟩
  have changes : Grows .dev devSent ⟨.zero, .valid, devChange⟩ _ := ⟨_, run_eq_leftBy change, rfl⟩
  constructor
  · exact (Reachable.exclusive_by_slot (.started .zero .empty none) dev_sound sends rivals
      dev_named.1 rivalNamed differentSend).1 rfl
  · refine (Reachable.exclusive_by_slot reachable_devSent dev_sound opens changes dev_named.2
      changeNamed differentOpening).2 fun sameSlot => ?_
    exact dev_named.1 (congrArg QualifiedRoot.previous sameSlot).symm

end Development

end Ledger

end AccountChains
