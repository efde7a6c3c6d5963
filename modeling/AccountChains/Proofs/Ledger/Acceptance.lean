import AccountChains.Proofs.Ledger.Suits

/-!
Contract: what suits is accepted.

A block that suits the blocks it builds on is accepted wherever its place is free,
and it is stored with the sideband that it suits them with. The frontier, the record
and the receivable that are looked up on the way are all determined by the block
table.

Owns: what judging answers for a block with a free place. Does not own: how `Suits`
and `Vacant` change with the ledger.
-/

namespace AccountChains

open BlockTable Tables

namespace Ledger

/-! ## Blocks with a free place -/

/-- A block goes on with a chain, after the head of its account. -/
structure Continued (tables : Tables) (stored before : StoredBlock) (record : AccountRecord) :
    Prop where
  found : tables.blocks.get? stored.block.previous = some before
  follows : Follows before stored
  owned : tables.accounts.get? stored.sideband.account = some record
  recorded : Recorded tables stored.sideband.account record before
  isHead : record.head = stored.block.previous

section Placing

variable {constants : LedgerConstants} {hint : Verification} {tables : Tables}
  {stored : StoredBlock} (coherent : tables.Coherent constants)
  (vacant : Vacant constants.genesis.hash tables.blocks stored)

include coherent vacant

theorem unopened_of_vacant (isFirst : stored.block.previous = .zero) :
    tables.accounts.get? stored.sideband.account = none := by
  cases owned : tables.accounts.get? stored.sideband.account with
  | none => rfl
  | some record =>
      obtain ⟨head, recorded⟩ := coherent.recorded owned
      obtain ⟨first, found, owner, isAlsoFirst⟩ := recorded.opening
      exact absurd owner (vacant.slot found (isAlsoFirst.trans isFirst.symm))

theorem continued_of_vacant (sound : constants.Sound) {before : StoredBlock}
    (found : tables.blocks.get? stored.block.previous = some before)
    (follows : Follows before stored) :
    ∃ record, Continued tables stored before record := by
  obtain ⟨record, belongs⟩ := coherent.belongs found
  have last : tables.successors.get? stored.block.previous = none := by
    cases linked : tables.successors.get? stored.block.previous with
    | none => rfl
    | some next =>
        obtain ⟨successor, nextFound, previous, nextFollows, -⟩ :=
          coherent.following sound found belongs linked
        exact absurd (nextFollows.account.symm.trans follows.account)
          (vacant.slot nextFound previous)
  have owned := belongs.found
  have isHead := belongs.last last
  rw [follows.account] at owned
  obtain ⟨head, recorded⟩ := coherent.recorded owned
  have headFound := recorded.found
  rw [isHead, found] at headFound
  obtain rfl := Option.some.inj headFound
  exact ⟨record, found, follows, owned, recorded, isHead⟩

theorem waiting_of_vacant {source : BlockHash} {send : StoredBlock}
    (receives : stored.transfer = .receives source)
    (found : tables.blocks.get? source = some send)
    (sends : send.transfer = .sends stored.sideband.account) :
    tables.receivables.get? ⟨stored.sideband.account, source⟩
      = some ⟨send.sideband.account, sentAmount tables.blocks send,
          send.sideband.details.epoch⟩ :=
  (coherent.waiting _ _).mpr ⟨send, found, sends, vacant.source receives, rfl⟩

end Placing

section Continuing

variable {tables : Tables} {stored before : StoredBlock} {record : AccountRecord}
  (continued : Continued tables stored before record)

include continued

theorem Continued.balanceBefore_eq : balanceBefore tables.blocks stored = record.balance := by
  rw [balanceBefore, continued.found, continued.recorded.balance]
  rfl

theorem Continued.epochBefore_eq : epochBefore tables.blocks stored = record.epoch := by
  rw [epochBefore, continued.found, continued.recorded.epoch]
  rfl

theorem Continued.room : record.blockCount.toNat + 1 < UInt64.size := by
  have oneHigher := continued.follows.height
  have range := stored.sideband.height.toNat_lt_size
  rw [continued.recorded.blockCount]
  omega

theorem Continued.height_eq : record.blockCount + 1 = stored.sideband.height := by
  apply UInt64.toNat_inj.mp
  rw [UInt64.toNat_add, continued.follows.height, continued.recorded.blockCount]
  have room := continued.room
  rw [continued.recorded.blockCount] at room
  exact Nat.mod_eq_of_lt room

end Continuing

/-! ## Judging a block that suits -/

section Judging

variable {constants : LedgerConstants} {hint : Verification} {tables : Tables}
  {block : Block} {sideband : Sideband}

/-- Judging takes a block in with a given sideband. -/
def Takes (constants : LedgerConstants) (hint : Verification) (block : Block) (tables : Tables)
    (sideband : Sideband) : Prop :=
  ∃ entry, judge constants hint block tables = .ok (.accepted entry) ∧ entry.HasRoom ∧
    entry.sideband sideband.timestamp = sideband

theorem later_eq_zero {first second : Epoch} (isZero : .zero = first.later second) :
    second = .zero := by
  cases first <;> cases second <;> first | rfl | cases isZero

/-- The sideband of a legacy block is known from its account, its height and its balance. -/
theorem legacySideband_eq {stored : StoredBlock} (justified : Justified tables.blocks stored)
    (legacy : stored.block.kind.isLegacy) :
    legacySideband stored.sideband.account stored.sideband.height stored.sideband.balance
      stored.sideband.timestamp = stored.sideband := by
  have details := justified.legacy legacy
  have stays := justified.stays (by rw [details]; rfl)
  rw [details] at stays
  have sourceEpoch := later_eq_zero stays
  obtain ⟨block, sideband⟩ := stored
  cases sideband
  simp only at details sourceEpoch
  subst details sourceEpoch
  rfl

theorem signed_of_plain (authorized : Authorized constants hint ⟨block, sideband⟩)
    (isPlain : sideband.details = .plain) :
    isVouchedOrSigned hint .valid block sideband.account := by
  unfold Authorized at authorized
  simp only [isPlain, BlockDetails.plain] at authorized
  exact authorized

/-- What judging finds for a legacy block that goes on with a chain. -/
structure LegacyPlace (hint : Verification) (block : Block) (tables : Tables) (account : Account)
    (before : StoredBlock) (record : AccountRecord) : Prop where
  found : tables.blocks.get? block.previous = some before
  legacy : before.block.kind.isLegacy
  fronted : tables.frontiers.get? block.previous = some account
  signed : isVouchedOrSigned hint .valid block account
  owned : tables.accounts.get? account = some record
  isHead : record.head = block.previous

/-- Up to the checks of its kind, a legacy block that is not known passes in its place. -/
theorem LegacyPlace.judgeAfter_eq {account : Account} {before : StoredBlock}
    {record : AccountRecord} (place : LegacyPlace hint block tables account before record)
    (fresh : tables.blocks.contains block.hash = false) (legacy : block.kind.isLegacy)
    (later : block.previous ≠ .zero) (rest : Account → Answer Judgement) :
    judgeAfter hint block tables rest = rest account := by
  have follows := (mayFollow_eq legacy later before.block.kind).trans place.legacy
  rw [judgeAfter_of_found fresh place.found follows, place.fronted]

theorem Continued.legacyPlace {before : StoredBlock} {record : AccountRecord}
    (continued : Continued tables ⟨block, sideband⟩ before record)
    (coherent : tables.Coherent constants) (legacy : block.kind.isLegacy)
    (authorized : Authorized constants hint ⟨block, sideband⟩)
    (isPlain : sideband.details = .plain) :
    LegacyPlace hint block tables sideband.account before record where
  found := continued.found
  legacy := continued.follows.legacy legacy
  fronted := (coherent.fronted _ _).mpr ⟨before, continued.found, continued.recorded.account,
    continued.follows.legacy legacy, continued.isHead ▸ continued.recorded.last⟩
  signed := signed_of_plain authorized isPlain
  owned := continued.owned
  isHead := continued.isHead

section Suiting

variable (coherent : tables.Coherent constants) (sound : constants.Sound)
  (suits : Suits constants hint tables.blocks ⟨block, sideband⟩)
  (vacant : Vacant constants.genesis.hash tables.blocks ⟨block, sideband⟩)

include coherent sound suits vacant

/-- A legacy block that is no first block finds its place. -/
theorem exists_legacyPlace (legacy : block.kind.isLegacy) (later : block.previous ≠ .zero) :
    ∃ before record, Continued tables ⟨block, sideband⟩ before record ∧
      LegacyPlace hint block tables sideband.account before record := by
  obtain ⟨before, found, follows⟩ := suits.justified.follows later
  obtain ⟨record, continued⟩ := continued_of_vacant coherent vacant sound found follows
  exact ⟨before, record, continued, continued.legacyPlace coherent legacy suits.authorized
    (suits.justified.legacy legacy)⟩

theorem takes_send {content : SendContent} (form : block.content = .send content) :
    Takes constants hint block tables sideband := by
  have justified := suits.justified
  have legacy : block.kind.isLegacy := congrArg BlockKind.isLegacy (Block.kind_of_form form)
  have settles := justified.settles
  have reflects := justified.reflects
  simp only [Settles, Reflects, StoredBlock.transfer, form] at settles reflects
  obtain ⟨before, record, continued, place⟩ :=
    exists_legacyPlace coherent sound suits vacant legacy settles.1
  have missing := vacant.missing
  have covered : ¬ record.balance < content.balance := by
    rw [Amount.lt_iff_toNat_lt, reflects, ← continued.balanceBefore_eq]
    exact Nat.not_lt_of_le settles.2.1
  refine ⟨.send sideband.account record content, ?_, continued.room, ?_⟩
  · simp only [judge, form]
    rw [judgeSend_eq hint tables form, place.judgeAfter_eq missing legacy settles.1]
    simp [frontierRecord_eq, bind, Except.bind, pure, Except.pure, place.signed, place.owned,
      covered]
  · simp only [Entry.sideband, Entry.height, Entry.before, Option.getD_some, reflects,
      continued.height_eq]
    exact legacySideband_eq justified legacy

omit sound in
/-- What a legacy block receives waits for its account. -/
theorem exists_receivable {source : BlockHash} (legacy : block.kind.isLegacy)
    (receives : StoredBlock.transfer ⟨block, sideband⟩ = .receives source) :
    ∃ receivable, tables.blocks.contains source ∧
      tables.receivables.get? ⟨sideband.account, source⟩ = some receivable ∧
      receivable.epoch = .zero ∧
      sideband.balance.toNat = (balanceBefore tables.blocks ⟨block, sideband⟩).toNat
        + receivable.amount.toNat := by
  have justified := suits.justified
  have isPlain : sideband.details = .plain := justified.legacy legacy
  have settles := justified.settles
  simp only [Settles, receives] at settles
  obtain ⟨send, found, sends, balance, sourceEpoch⟩ := settles
  refine ⟨_, (Table.contains_eq_true_iff _ _).mpr ⟨send, found⟩,
    waiting_of_vacant coherent vacant receives found sends, ?_, balance⟩
  -- The block leaves its account in the first epoch, which is never before that of the source.
  have stays := justified.stays (by rw [isPlain]; rfl)
  rw [isPlain] at stays
  exact sourceEpoch.symm.trans (later_eq_zero stays)

theorem takes_receive {content : ReceiveContent} (form : block.content = .receive content)
    (later : block.previous ≠ .zero) : Takes constants hint block tables sideband := by
  have justified := suits.justified
  have legacy : block.kind.isLegacy := congrArg BlockKind.isLegacy (Block.kind_of_form form)
  have receives : StoredBlock.transfer ⟨block, sideband⟩ = .receives content.source := by
    simp [StoredBlock.transfer, form]
  obtain ⟨receivable, source, waits, original, balance⟩ :=
    exists_receivable coherent suits vacant legacy receives
  obtain ⟨before, record, continued, place⟩ :=
    exists_legacyPlace coherent sound suits vacant legacy later
  have missing := vacant.missing
  have gains : record.balance.wrappingAdd receivable.amount = sideband.balance := by
    have range := sideband.balance.toNat_lt
    rw [continued.balanceBefore_eq] at balance
    apply Amount.ext
    rw [Amount.toNat_wrappingAdd_of_lt (balance ▸ range), balance]
  refine ⟨.receive sideband.account record content receivable, ?_, continued.room, ?_⟩
  · have isHead : record.head = content.previous := place.isHead.trans (Block.previous_of_form form)
    simp only [judge, form]
    rw [judgeReceive_eq hint tables form, place.judgeAfter_eq missing legacy later]
    simp [frontierRecord_eq, stored, Store.hasBlock, Store.receivable?, Except.mapError, bind,
      Except.bind, pure, Except.pure, place.signed, place.owned, source, isHead, waits, original]
  · simp only [Entry.sideband, Entry.height, Entry.before, Option.getD_some, gains,
      continued.height_eq]
    exact legacySideband_eq justified legacy

omit sound in
theorem takes_opening {content : OpeningContent} (form : block.content = .opening content) :
    Takes constants hint block tables sideband := by
  have justified := suits.justified
  have legacy : block.kind.isLegacy := congrArg BlockKind.isLegacy (Block.kind_of_form form)
  have isFirst : block.previous = .zero := Block.previous_of_form form
  have receives : StoredBlock.transfer ⟨block, sideband⟩ = .receives content.source := by
    simp [StoredBlock.transfer, form]
  obtain ⟨receivable, source, waits, original, balance⟩ :=
    exists_receivable coherent suits vacant legacy receives
  have reflects := justified.reflects
  have permitted := suits.permitted
  simp only [Reflects, Permitted, form] at reflects permitted
  have signed := signed_of_plain suits.authorized (justified.legacy legacy)
  have unopened := unopened_of_vacant coherent vacant isFirst
  have missing := vacant.missing
  have gains : receivable.amount = sideband.balance := by
    apply Amount.ext
    rw [balance, balanceBefore, isFirst, coherent.zero_absent]
    exact (Nat.zero_add _).symm
  have height : (AccountRecord.blank.blockCount + 1 : UInt64) = sideband.height := by
    apply UInt64.toNat_inj.mp
    rw [(justified.first isFirst).1]
    rfl
  refine ⟨.opening content receivable, ?_, ?_, ?_⟩
  · simp only at unopened
    rw [← reflects] at unopened waits signed
    unfold judge
    simp only [form, judgeOpening, stored, Store.hasBlock, Store.hasAccount, Store.account?,
      Store.receivable?, Except.mapError, Except.map, bind, Except.bind, pure, Except.pure]
    simp [missing, unopened, signed, source, waits, original, permitted]
  · exact (by decide : AccountRecord.blank.blockCount.toNat + 1 < UInt64.size)
  · simp only [Entry.sideband, Entry.height, Entry.before, Option.getD_none, gains, height,
      reflects]
    exact legacySideband_eq justified legacy

theorem takes_change {content : ChangeContent} (form : block.content = .change content)
    (later : block.previous ≠ .zero) : Takes constants hint block tables sideband := by
  have justified := suits.justified
  have legacy : block.kind.isLegacy := congrArg BlockKind.isLegacy (Block.kind_of_form form)
  have settles := justified.settles
  simp only [Settles, StoredBlock.transfer, form] at settles
  obtain ⟨before, record, continued, place⟩ :=
    exists_legacyPlace coherent sound suits vacant legacy later
  have missing := vacant.missing
  have keeps : record.balance = sideband.balance :=
    continued.balanceBefore_eq.symm.trans settles.1.symm
  refine ⟨.change sideband.account record content, ?_, continued.room, ?_⟩
  · simp only [judge, form]
    rw [judgeChange_eq hint tables form, place.judgeAfter_eq missing legacy later]
    simp [frontierRecord_eq, bind, Except.bind, pure, Except.pure, place.signed, place.owned]
  · simp only [Entry.sideband, Entry.height, Entry.before, Option.getD_some, keeps,
      continued.height_eq]
    exact legacySideband_eq justified legacy

end Suiting

/-! ### State blocks -/

/-- A state block without an epoch link, or one that changes the balance, is no epoch block. -/
theorem judge_eq_judgeTransfer {content : StateContent} (form : block.content = .state content)
    (zeroAbsent : tables.blocks.get? .zero = none)
    (moves : constants.epochs.isEpochLink content.link →
      content.balance ≠ balanceBefore tables.blocks ⟨block, sideband⟩)
    (present : block.previous ≠ .zero →
      ∃ before, tables.blocks.get? block.previous = some before) :
    judge constants hint block tables = judgeTransfer hint block content tables := by
  have previous : block.previous = content.previous := Block.previous_of_form form
  unfold balanceBefore at moves
  rw [previous] at moves present
  unfold judge judgeState
  simp only [form, balance?, stored, Store.block?, Except.mapError, bind, Except.bind, pure,
    Except.pure]
  by_cases linked : constants.epochs.isEpochLink content.link
  · have changes := moves linked
    simp only [linked, Bool.not_true, Bool.false_eq_true, if_false]
    by_cases isFirst : content.previous = .zero
    · rw [isFirst, zeroAbsent] at changes
      rw [if_pos ((Identifier.isZero_iff _).mpr isFirst)]
      exact if_neg changes
    · obtain ⟨before, found⟩ := present isFirst
      rw [found] at changes ⊢
      rw [if_neg (mt (Identifier.isZero_iff _).mp isFirst)]
      exact if_neg changes
  · simp [linked]

/-- A state block with an epoch link that keeps the balance is an epoch block. -/
theorem judge_eq_judgeUpgrade {content : StateContent} (form : block.content = .state content)
    (zeroAbsent : tables.blocks.get? .zero = none)
    (linked : constants.epochs.isEpochLink content.link)
    (keeps : content.balance = balanceBefore tables.blocks ⟨block, sideband⟩)
    (present : block.previous ≠ .zero →
      ∃ before, tables.blocks.get? block.previous = some before) :
    judge constants hint block tables = judgeUpgrade constants hint block content tables := by
  have previous : block.previous = content.previous := Block.previous_of_form form
  unfold balanceBefore at keeps
  rw [previous] at keeps present
  unfold judge judgeState
  simp only [form, linked, Bool.not_true, Bool.false_eq_true, if_false, balance?, stored,
    Store.block?, Except.mapError, bind, Except.bind, pure, Except.pure]
  by_cases isFirst : content.previous = .zero
  · rw [isFirst, zeroAbsent] at keeps
    rw [if_pos ((Identifier.isZero_iff _).mpr isFirst)]
    exact if_pos keeps
  · obtain ⟨before, found⟩ := present isFirst
    rw [found] at keeps ⊢
    rw [if_neg (mt (Identifier.isZero_iff _).mp isFirst)]
    exact if_pos keeps

theorem sideband_eq {account : Account} {height : UInt64} {balance : Amount}
    {details : BlockDetails} {sourceEpoch : Epoch} (owner : account = sideband.account)
    (isHeight : height = sideband.height) (isBalance : balance = sideband.balance)
    (isDetails : details = sideband.details) (isSource : sourceEpoch = sideband.sourceEpoch) :
    ({ account, height, balance, timestamp := sideband.timestamp, details, sourceEpoch }
      : Sideband) = sideband := by
  subst owner isHeight isBalance isDetails isSource
  rfl

theorem details_eq {details : BlockDetails} {epoch : Epoch} {isSend isReceive isEpoch : Bool}
    (isOfEpoch : details.epoch = epoch) (sends : details.isSend = isSend)
    (receives : details.isReceive = isReceive) (upgrades : details.isEpoch = isEpoch) :
    (⟨epoch, isSend, isReceive, isEpoch⟩ : BlockDetails) = details := by
  subst isOfEpoch sends receives upgrades
  rfl

section States

variable {content : StateContent} {blocks : BlockTable} (form : block.content = .state content)
  (suits : Suits constants hint blocks ⟨block, sideband⟩)

include form

theorem state_transfer : StoredBlock.transfer ⟨block, sideband⟩
    = if sideband.details.isSend then .sends content.link.asAccount
      else if sideband.details.isReceive then .receives content.link.asBlockHash
      else .neither := by
  simp only [StoredBlock.transfer, form]

include suits

theorem state_reflects : content.account = sideband.account ∧ content.balance = sideband.balance ∧
    (sideband.details.isSend = true
      ↔ content.balance.toNat < (balanceBefore blocks ⟨block, sideband⟩).toNat) := by
  have reflects := suits.justified.reflects
  simpa only [Reflects, form] using reflects

theorem state_permitted : content.account ≠ .zero ∧
    if sideband.details.isEpoch then Upgrading constants blocks ⟨block, sideband⟩ content
    else Transferring constants blocks ⟨block, sideband⟩ content := by
  have permitted := suits.permitted
  simpa only [Permitted, form] using permitted

/-- The link of an epoch block is registered. -/
theorem exists_upgrade (isEpoch : sideband.details.isEpoch = true) :
    ∃ upgrade, constants.epochs.upgrades.get? content.link = some upgrade := by
  have permitted := (state_permitted form suits).2
  rw [if_pos isEpoch] at permitted
  obtain ⟨upgrade, found, -⟩ := Option.map_eq_some_iff.mp permitted.leads
  exact ⟨upgrade, found⟩

end States

section Continuations

variable {content : StateContent} (form : block.content = .state content)
  (coherent : tables.Coherent constants) (sound : constants.Sound)
  (vacant : Vacant constants.genesis.hash tables.blocks ⟨block, sideband⟩)
  (owner : content.account = sideband.account) (owned : content.account ≠ .zero)
  (first : block.previous = .zero → sideband.height.toNat = 1)
  (follows : block.previous ≠ .zero → ∃ before,
    tables.blocks.get? block.previous = some before ∧ Follows before ⟨block, sideband⟩)

include form coherent sound vacant owner owned first follows

/-- The account of a state block has the record that the block goes on with, if it goes on. -/
theorem exists_continues : ∃ existing, Continues tables content existing ∧
    balanceBefore tables.blocks ⟨block, sideband⟩ = balanceOf existing ∧
    epochBefore tables.blocks ⟨block, sideband⟩ = epochOf existing ∧
    (existing.getD .blank).blockCount + 1 = sideband.height ∧
    (existing.getD .blank).blockCount.toNat + 1 < UInt64.size ∧
    (existing = none ↔ block.previous = .zero) := by
  have previous : block.previous = content.previous := Block.previous_of_form form
  by_cases isFirst : block.previous = .zero
  · have unopened := unopened_of_vacant coherent vacant isFirst
    refine ⟨none, ⟨owner ▸ unopened, previous.symm.trans isFirst, by simp, owned⟩, ?_, ?_, ?_, ?_,
      by simp [isFirst]⟩
    · rw [balanceBefore, isFirst, coherent.zero_absent]
      rfl
    · rw [epochBefore, isFirst, coherent.zero_absent]
      rfl
    · apply UInt64.toNat_inj.mp
      rw [first isFirst]
      rfl
    · decide
  · obtain ⟨before, found, goesOn⟩ := follows isFirst
    obtain ⟨record, continued⟩ := continued_of_vacant coherent vacant sound found goesOn
    exact ⟨some record, ⟨owner ▸ continued.owned, previous.symm.trans continued.isHead.symm,
      fun _ => previous ▸ isFirst, owned⟩, continued.balanceBefore_eq, continued.epochBefore_eq,
      continued.height_eq, continued.room, by simp [isFirst]⟩

end Continuations

section Transfers

variable {content : StateContent} {existing : Option AccountRecord} {record : AccountRecord}
  (missing : tables.blocks.contains block.hash = false)
  (signed : isVouchedOrSigned hint .valid block content.account)

include missing signed

theorem judgeTransfer_outgoing (continues : Continues tables content (some record))
    (present : tables.blocks.contains content.previous)
    (spends : content.balance < record.balance) :
    judgeTransfer hint block content tables = .ok (.accepted (.transfer (some record) content
      ⟨record.epoch, true, false, false⟩ (record.balance.wrappingSub content.balance) .zero)) := by
  have later := continues.named rfl
  have isHead : content.previous = record.head := continues.previous
  simp only [judgeTransfer, stored, Store.hasBlock, Store.account?, continues.recorded,
    Except.mapError, bind, Except.bind, pure, Except.pure]
  simp [missing, signed, continues.owned, spends, ← isHead, later, present]

theorem judgeTransfer_standing (continues : Continues tables content (some record))
    (present : tables.blocks.contains content.previous) (unlinked : content.link = .zero)
    (keeps : content.balance = record.balance) :
    judgeTransfer hint block content tables = .ok (.accepted (.transfer (some record) content
      ⟨record.epoch, false, false, false⟩ .zero .zero)) := by
  have later := continues.named rfl
  have isHead : content.previous = record.head := continues.previous
  have still : ¬ record.balance < record.balance := Nat.lt_irrefl _
  have nothing := (Amount.wrappingSub_eq_zero_iff record.balance record.balance).mpr rfl
  have noLink : content.link.isZero = true := (Identifier.isZero_iff _).mpr unlinked
  have noAmount : Amount.zero.isZero = true := rfl
  simp only [judgeTransfer, stored, Store.hasBlock, Store.account?, continues.recorded,
    Except.mapError, bind, Except.bind, pure, Except.pure]
  simp [missing, signed, continues.owned, keeps, still, nothing, ← isHead, later, present,
    noLink, noAmount]

section Linked

variable (continues : Continues tables content existing)
  (present : existing.isSome → tables.blocks.contains content.previous)
  (covered : ¬ content.balance < balanceOf existing) (linked : content.link ≠ .zero)

include continues present covered linked

theorem judgeTransfer_incoming {receivable : Receivable}
    (source : tables.blocks.contains content.link.asBlockHash)
    (waits : tables.receivables.get? ⟨content.account, content.link.asBlockHash⟩
      = some receivable)
    (gains : content.balance.wrappingSub (balanceOf existing) = receivable.amount) :
    judgeTransfer hint block content tables = .ok (.accepted (.transfer existing content
      ⟨(epochOf existing).later receivable.epoch, false, true, false⟩ receivable.amount
      receivable.epoch)) := by
  have hasLink : content.link.isZero = false := (Identifier.isZero_eq_false_iff _).mpr linked
  simp only [judgeTransfer, stored, Store.hasBlock, Store.account?, Store.receivable?,
    continues.recorded, Except.mapError, bind, Except.bind, pure, Except.pure]
  cases existing with
  | none =>
      have isFirst : content.previous = .zero := continues.previous
      have amount : content.balance = receivable.amount :=
        (Amount.wrappingSub_zero content.balance).symm.trans gains
      simp [missing, signed, continues.owned, isFirst, hasLink, source, waits, amount, epochOf,
        AccountRecord.blank]
  | some record =>
      have later := continues.named rfl
      have isHead : content.previous = record.head := continues.previous
      have still : ¬ content.balance < record.balance := covered
      have amount : content.balance.wrappingSub record.balance = receivable.amount := gains
      simp [missing, signed, continues.owned, ← isHead, later, present rfl, still, hasLink, source,
        waits, amount, epochOf]

theorem judgeTransfer_gap (absent : tables.blocks.contains content.link.asBlockHash = false) :
    judgeTransfer hint block content tables
      = .ok (refuseAfter .gapSource .valid (balanceOf existing)) := by
  have hasLink : content.link.isZero = false := (Identifier.isZero_eq_false_iff _).mpr linked
  simp only [judgeTransfer, stored, Store.hasBlock, Store.account?, Store.receivable?,
    continues.recorded, Except.mapError, bind, Except.bind, pure, Except.pure]
  cases existing with
  | none =>
      have isFirst : content.previous = .zero := continues.previous
      simp [missing, signed, continues.owned, isFirst, hasLink, absent, balanceOf,
        AccountRecord.blank]
  | some record =>
      have later := continues.named rfl
      have isHead : content.previous = record.head := continues.previous
      have still : ¬ content.balance < record.balance := covered
      simp [missing, signed, continues.owned, ← isHead, later, present rfl, still, hasLink, absent,
        balanceOf]

end Linked

end Transfers

/-- What judging finds for a state block that is no epoch block. -/
structure TransferPlace (constants : LedgerConstants) (hint : Verification) (block : Block)
    (tables : Tables) (sideband : Sideband) (content : StateContent)
    (existing : Option AccountRecord) : Prop where
  missing : tables.blocks.contains block.hash = false
  judged : judge constants hint block tables = judgeTransfer hint block content tables
  signed : isVouchedOrSigned hint .valid block content.account
  continues : Continues tables content existing
  present : existing.isSome → tables.blocks.contains content.previous
  owner : content.account = sideband.account
  balance : content.balance = sideband.balance
  height : (existing.getD .blank).blockCount + 1 = sideband.height
  room : (existing.getD .blank).blockCount.toNat + 1 < UInt64.size
  before : balanceBefore tables.blocks ⟨block, sideband⟩ = balanceOf existing
  spends : sideband.details.isSend = true ↔ content.balance < balanceOf existing
  receives : sideband.details.isReceive = (!sideband.details.isSend && !content.link.isZero)
  linked : existing = none → content.link ≠ .zero
  notEpoch : sideband.details.isEpoch = false
  stays : sideband.details.epoch = (epochOf existing).later sideband.sourceEpoch

theorem judgeUpgrade_of_agreeing {content : StateContent} {existing : Option AccountRecord}
    {epoch : Epoch} (missing : tables.blocks.contains block.hash = false)
    (signed : isVouchedOrSigned hint .validEpoch block
      ((constants.epochs.signer? content.link).getD .zero))
    (continues : Continues tables content existing)
    (unnamed : existing = none → content.representative = .zero)
    (agrees : ∀ record, existing = some record →
      representativeOf tables.blocks record = some content.representative)
    (leads : constants.epochs.epoch? content.link = some epoch)
    (sequential : ∀ record, existing = some record → record.epoch.isSequential epoch)
    (keeps : content.balance = balanceOf existing) :
    judgeUpgrade constants hint block content tables
      = .ok (.accepted (.upgrade existing content epoch)) := by
  simp only [judgeUpgrade, stored, Store.hasBlock, Store.account?, representativeOfBlock?,
    Store.block?, continues.recorded, Except.mapError, bind, Except.bind, pure, Except.pure]
  cases existing with
  | none =>
      have isFirst : content.previous = .zero := continues.previous
      have balance : content.balance = .zero := keeps
      simp [missing, signed, continues.owned, isFirst, unnamed rfl, leads, balance]
  | some record =>
      have later := continues.named rfl
      have isHead : content.previous = record.head := continues.previous
      have names := agrees record rfl
      unfold representativeOf at names
      have balance : content.balance = record.balance := keeps
      simp [missing, signed, continues.owned, ← isHead, later, names, leads, balance,
        sequential record rfl]

section Suiting

variable {content : StateContent} (form : block.content = .state content)
  (coherent : tables.Coherent constants) (sound : constants.Sound)
  (suits : Suits constants hint tables.blocks ⟨block, sideband⟩)
  (vacant : Vacant constants.genesis.hash tables.blocks ⟨block, sideband⟩)

include form coherent sound suits vacant

theorem takes_upgrade (isEpoch : sideband.details.isEpoch = true) :
    Takes constants hint block tables sideband := by
  have justified := suits.justified
  obtain ⟨isNeither, sequential⟩ := justified.upgrades isEpoch
  obtain ⟨owner, balance, -⟩ := state_reflects form suits
  obtain ⟨-, permitted⟩ := state_permitted form suits
  rw [if_pos isEpoch] at permitted
  have authorized := suits.authorized
  rw [Authorized, if_pos isEpoch, Block.link_of_form form] at authorized
  have settles := justified.settles
  simp only [Settles, isNeither] at settles
  obtain ⟨keeps, sourceEpoch⟩ := settles
  have linked : constants.epochs.isEpochLink content.link :=
    (Table.contains_eq_true_iff _ _).mpr (exists_upgrade form suits isEpoch)
  have missing := vacant.missing
  have plainDetails : sideband.details.isSend = false ∧ sideband.details.isReceive = false := by
    rw [state_transfer form] at isNeither
    split at isNeither
    · simp at isNeither
    · next keepsAmount =>
        split at isNeither
        · simp at isNeither
        · next gainsNothing => exact ⟨by simpa using keepsAmount, by simpa using gainsNothing⟩
  obtain ⟨existing, continues, balanceIs, epochIs, height, room, opened⟩ :=
    exists_continues form coherent sound vacant owner (state_permitted form suits).1
      (fun isFirst => (justified.first isFirst).1) justified.follows
  refine ⟨.upgrade existing content sideband.details.epoch, ?_, room, ?_⟩
  · rw [judge_eq_judgeUpgrade form coherent.zero_absent linked (balance.trans keeps)
      justified.previous_found]
    refine judgeUpgrade_of_agreeing missing authorized continues ?_ ?_ permitted.leads ?_
      (balance.trans (keeps.trans balanceIs))
    · exact fun unopened => permitted.unnamed (opened.mp unopened)
    · rintro record rfl
      have later : block.previous ≠ .zero := mt opened.mpr (by simp)
      obtain ⟨naming, found, named, namingFound, names⟩ := permitted.agrees later
      obtain ⟨head, recorded⟩ := coherent.recorded continues.recorded
      have isHead : block.previous = record.head :=
        (Block.previous_of_form form).trans continues.previous
      have same : naming = record.representativeBlock :=
        (isHead ▸ named).unique recorded.representative
      rw [representativeOf, ← same, namingFound]
      exact names
    · rintro record rfl
      have later : block.previous ≠ .zero := mt opened.mpr (by simp)
      have next := sequential later
      rwa [epochIs] at next
  · refine sideband_eq owner height (balanceIs.symm.trans keeps.symm) ?_ sourceEpoch.symm
    exact details_eq rfl plainDetails.1 plainDetails.2 isEpoch

/-- A state block that is no epoch block finds its place. -/
theorem exists_transferPlace (notEpoch : sideband.details.isEpoch = false) :
    ∃ existing, TransferPlace constants hint block tables sideband content existing := by
  have justified := suits.justified
  obtain ⟨owner, balance, spends⟩ := state_reflects form suits
  obtain ⟨owned, permitted⟩ := state_permitted form suits
  rw [if_neg (by simp [notEpoch])] at permitted
  have signed := suits.authorized
  rw [Authorized, if_neg (by simp [notEpoch])] at signed
  obtain ⟨existing, continues, balanceIs, epochIs, height, room, opened⟩ :=
    exists_continues form coherent sound vacant owner owned
      (fun isFirst => (justified.first isFirst).1) justified.follows
  have later (isOpen : existing.isSome) : block.previous ≠ .zero :=
    mt opened.mpr (Option.isSome_iff_ne_none.mp isOpen)
  have previous : block.previous = content.previous := Block.previous_of_form form
  refine ⟨existing, {
    missing := vacant.missing
    judged :=
      judge_eq_judgeTransfer form coherent.zero_absent permitted.moves justified.previous_found
    signed := owner ▸ signed
    continues := continues
    present := fun isOpen => (tables.blocks.contains_eq_true_iff _).mpr
      (previous ▸ justified.previous_found (later isOpen))
    owner := owner
    balance := balance
    height := height
    room := room
    before := balanceIs
    spends := by rw [spends, balanceIs, Amount.lt_iff_toNat_lt]
    receives := permitted.receives
    linked := fun unopened => permitted.linked (opened.mp unopened)
    notEpoch := notEpoch
    stays := epochIs ▸ justified.stays notEpoch }⟩

end Suiting

namespace TransferPlace

variable {content : StateContent} {existing : Option AccountRecord}
  (place : TransferPlace constants hint block tables sideband content existing)

include place

theorem takes_outgoing (isSend : sideband.details.isSend = true)
    (sourceEpoch : sideband.sourceEpoch = .zero) : Takes constants hint block tables sideband := by
  have less := place.spends.mp isSend
  have stands : sideband.details.isReceive = false := by simp [place.receives, isSend]
  have stays := place.stays
  rw [sourceEpoch, Epoch.later_zero] at stays
  cases existing with
  -- An account that is not open has nothing to spend.
  | none => exact absurd less (Amount.not_lt_zero _)
  | some record =>
      refine ⟨_, place.judged.trans (judgeTransfer_outgoing place.missing place.signed
        place.continues (place.present rfl) less), place.room, ?_⟩
      exact sideband_eq place.owner place.height place.balance
        (details_eq stays isSend stands place.notEpoch) sourceEpoch.symm

theorem takes_standing (unlinked : content.link = .zero)
    (notSend : sideband.details.isSend = false)
    (keeps : sideband.balance = balanceBefore tables.blocks ⟨block, sideband⟩)
    (sourceEpoch : sideband.sourceEpoch = .zero) : Takes constants hint block tables sideband := by
  have stands : sideband.details.isReceive = false := by simp [place.receives, unlinked]
  have stays := place.stays
  rw [sourceEpoch, Epoch.later_zero] at stays
  cases existing with
  -- A first block has to receive something.
  | none => exact absurd unlinked (place.linked rfl)
  | some record =>
      refine ⟨_, place.judged.trans (judgeTransfer_standing place.missing place.signed
        place.continues (place.present rfl) unlinked
        (place.balance.trans (keeps.trans place.before))), place.room, ?_⟩
      exact sideband_eq place.owner place.height place.balance
        (details_eq stays notSend stands place.notEpoch) sourceEpoch.symm

theorem takes_incoming (linked : content.link ≠ .zero) (notSend : sideband.details.isSend = false)
    {receivable : Receivable} (source : tables.blocks.contains content.link.asBlockHash)
    (waits : tables.receivables.get? ⟨sideband.account, content.link.asBlockHash⟩
      = some receivable)
    (gained : sideband.balance.toNat
      = (balanceBefore tables.blocks ⟨block, sideband⟩).toNat + receivable.amount.toNat)
    (sourceEpoch : sideband.sourceEpoch = receivable.epoch) :
    Takes constants hint block tables sideband := by
  have gains : sideband.details.isReceive = true := by simp [place.receives, notSend, linked]
  have covered : ¬ content.balance < balanceOf existing := by simp [← place.spends, notSend]
  have stays := place.stays
  rw [sourceEpoch] at stays
  rw [← place.owner] at waits
  have amount : content.balance.wrappingSub (balanceOf existing) = receivable.amount := by
    rw [Amount.lt_iff_toNat_lt, Nat.not_lt] at covered
    apply Amount.ext
    rw [Amount.toNat_wrappingSub covered, ← place.before, place.balance, gained]
    exact Nat.add_sub_cancel_left _ _
  refine ⟨_, place.judged.trans (judgeTransfer_incoming place.missing place.signed place.continues
    place.present covered linked source waits amount), place.room, ?_⟩
  exact sideband_eq place.owner place.height place.balance
    (details_eq stays notSend gains place.notEpoch) sourceEpoch.symm

end TransferPlace

section Suiting

variable {content : StateContent} (form : block.content = .state content)
  (coherent : tables.Coherent constants) (sound : constants.Sound)
  (suits : Suits constants hint tables.blocks ⟨block, sideband⟩)
  (vacant : Vacant constants.genesis.hash tables.blocks ⟨block, sideband⟩)

include form coherent sound suits vacant

theorem takes_transfer (notEpoch : sideband.details.isEpoch = false) :
    Takes constants hint block tables sideband := by
  obtain ⟨existing, place⟩ := exists_transferPlace form coherent sound suits vacant notEpoch
  have settles := suits.justified.settles
  unfold Settles at settles
  rw [state_transfer form] at settles
  cases isSend : sideband.details.isSend with
  | true =>
      rw [isSend, if_pos rfl] at settles
      exact place.takes_outgoing isSend settles.2.2
  | false =>
      rw [isSend, if_neg Bool.false_ne_true] at settles
      by_cases linked : content.link = .zero
      · have stands : sideband.details.isReceive = false := by simp [place.receives, linked]
        rw [stands, if_neg Bool.false_ne_true] at settles
        exact place.takes_standing linked isSend settles.1 settles.2
      · have gains : sideband.details.isReceive = true := by simp [place.receives, isSend, linked]
        have receives : StoredBlock.transfer ⟨block, sideband⟩
            = .receives content.link.asBlockHash := by simp [state_transfer form, isSend, gains]
        rw [gains, if_pos rfl] at settles
        obtain ⟨send, found, sends, gained, sourceEpoch⟩ := settles
        exact place.takes_incoming linked isSend
          ((tables.blocks.contains_eq_true_iff _).mpr ⟨send, found⟩)
          (waiting_of_vacant coherent vacant receives found sends) gained sourceEpoch

end Suiting

/-- A block that suits the blocks it builds on is taken in if its place is free. -/
theorem takes_of_suits (coherent : tables.Coherent constants) (sound : constants.Sound)
    (suits : Suits constants hint tables.blocks ⟨block, sideband⟩)
    (vacant : Vacant constants.genesis.hash tables.blocks ⟨block, sideband⟩) :
    Takes constants hint block tables sideband := by
  cases form : block.content with
  | send => exact takes_send coherent sound suits vacant form
  | receive content =>
      refine takes_receive coherent sound suits vacant form fun isFirst => ?_
      simpa [Block.representative?, form, Content.representative?]
        using (suits.justified.first isFirst).2
  | opening => exact takes_opening coherent suits vacant form
  | change content =>
      have permitted := suits.permitted
      simp only [Permitted, form] at permitted
      exact takes_change coherent sound suits vacant form permitted
  | state =>
      cases isEpoch : sideband.details.isEpoch with
      | true => exact takes_upgrade form coherent sound suits vacant isEpoch
      | false => exact takes_transfer form coherent sound suits vacant isEpoch

end Judging

end Ledger

end AccountChains
