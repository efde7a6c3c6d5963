import AccountChains.Proofs.Ledger.Growth

/-!
Contract: blocks that come too early.

A ledger is on its way to another one: all it has, the other one has as well. A
block that belongs into the other ledger and is not there yet finds its place
free. If all it builds on is there, it is taken in, with the sideband that it has
in the other ledger but for the time. If its predecessor is missing, or else the
send that it receives, the verdict says which of the two it is. No other verdict
is possible, whatever is known about the signature.

Owns: what becomes of such a block. Does not own: what is done about a gap.
-/

namespace AccountChains

open BlockTable Tables

namespace Ledger

/-- A block belongs into a ledger that another one is on its way to, and is not there yet. -/
structure Due (constants : LedgerConstants) (part final : Tables) (stored : StoredBlock) :
    Prop where
  partCoherent : part.Coherent constants
  finalCoherent : final.Coherent constants
  within : Within part.blocks final.blocks
  found : final.blocks.get? stored.hash = some stored
  suits : Suits constants .unknown final.blocks stored
  fresh : part.blocks.get? stored.hash = none

/-- What becomes of an offer of a block that is due. -/
inductive Tries (part : Tables) (now : Timestamp) (stored : StoredBlock) :
    Answer Receipt × Tables → Prop where
  | taken {receipt : Receipt} (progresses : receipt.verdict = .progress) :
      Tries part now stored (.ok receipt,
        part.append ⟨stored.block, { stored.sideband with timestamp := now }⟩)
  | gapPrevious {receipt : Receipt} (isGap : receipt.verdict = .gapPrevious)
      (later : stored.block.previous ≠ .zero)
      (absent : part.blocks.get? stored.block.previous = none) :
      Tries part now stored (.ok receipt, part)
  | gapSource {receipt : Receipt} {source : BlockHash} (isGap : receipt.verdict = .gapSource)
      (receives : stored.transfer = .receives source) (absent : part.blocks.get? source = none) :
      Tries part now stored (.ok receipt, part)

namespace Due

variable {constants : LedgerConstants} {part final : Tables} {block : Block} {sideband : Sideband}
  {hint : Verification} (due : Due constants part final ⟨block, sideband⟩)

include due

theorem ne_of_found {hash : BlockHash} {stored : StoredBlock}
    (found : part.blocks.get? hash = some stored) : hash ≠ block.hash := by
  rintro rfl
  simp [show part.blocks.get? block.hash = none from due.fresh] at found

theorem notGenesis : block.hash ≠ constants.genesis.hash := by
  obtain ⟨now, found⟩ := due.partCoherent.genesis
  exact (due.ne_of_found found).symm

theorem vacant : Vacant constants.genesis.hash part.blocks ⟨block, sideband⟩ where
  fresh := due.fresh
  slot := by
    intro hash other found previous owner
    obtain ⟨later, laterFound, alike⟩ := due.within found
    refine due.ne_of_found found ?_
    rw [← alike.block_eq] at previous
    rw [← alike.account_eq] at owner
    -- Both would be the first block of the account, or both would follow the same block.
    by_cases isFirst : block.previous = .zero
    · obtain ⟨record, belongs⟩ := due.finalCoherent.belongs laterFound
      obtain ⟨own, ownBelongs⟩ := due.finalCoherent.belongs due.found
      have same := belongs.found
      rw [owner, ownBelongs.found] at same
      obtain rfl := Option.some.inj same
      exact (belongs.first (previous.trans isFirst)).symm.trans (ownBelongs.first isFirst)
    · have linked := due.finalCoherent.successor_of laterFound (previous ▸ isFirst)
      rw [previous, due.finalCoherent.successor_of due.found isFirst] at linked
      exact (Option.some.inj linked).symm
  source := by
    intro source receives hash other found notGenesis alsoReceives
    obtain ⟨later, laterFound, alike⟩ := due.within found
    exact due.ne_of_found found (due.finalCoherent.once laterFound due.found notGenesis
      due.notGenesis (alike.transfer_eq.trans alsoReceives) receives)

theorem missing : part.blocks.contains block.hash = false := due.vacant.missing

theorem finalPrevious (later : block.previous ≠ .zero) :
    ∃ before, final.blocks.get? block.previous = some before :=
  due.suits.justified.previous_found later

theorem finalSource {source : BlockHash}
    (receives : StoredBlock.transfer ⟨block, sideband⟩ = .receives source) :
    ∃ send, final.blocks.get? source = some send :=
  due.suits.justified.source_found receives

theorem dependsOn_previous :
    DependsOn constants.genesis.hash final.blocks block.hash block.previous :=
  ⟨_, due.found, .inl rfl⟩

theorem dependsOn_source {source : BlockHash}
    (receives : StoredBlock.transfer ⟨block, sideband⟩ = .receives source) :
    DependsOn constants.genesis.hash final.blocks block.hash source :=
  ⟨_, due.found, .inr ⟨due.notGenesis, receives⟩⟩

/-- Whoever has to sign a transfer has signed it. -/
theorem signed (notEpoch : sideband.details.isEpoch = false) (hint : Verification) :
    isVouchedOrSigned hint .valid block sideband.account := by
  have authorized := due.suits.authorized.hinted hint
  rwa [Authorized, if_neg (by simp [notEpoch])] at authorized

/-! ## A missing predecessor -/

section Previous

variable (absent : part.blocks.get? block.previous = none)

include absent

theorem judgeState_gap {content : StateContent} (form : block.content = .state content)
    (later : content.previous ≠ .zero) : ∃ receipt,
      judgeState constants hint block content part = .ok (.refused receipt) ∧
        receipt.verdict = .gapPrevious := by
  have missing := due.missing
  have owner := (state_reflects form due.suits).1
  have owned := (state_permitted form due.suits).1
  have authorized := due.suits.authorized
  have previous : block.previous = content.previous := Block.previous_of_form form
  rw [previous] at absent
  have gone := (Table.contains_eq_false_iff _ _).mpr absent
  unfold judgeState
  by_cases linked : constants.epochs.isEpochLink content.link
  · -- Here the verdict depends on whether the account or the epoch signer has signed.
    have signed : block.isSignedBy content.account ∨
        block.isSignedBy ((constants.epochs.signer? content.link).getD .zero) := by
      unfold Authorized at authorized
      split at authorized
      · right
        rw [Block.link_of_form form] at authorized
        exact isVouchedOrSigned_of_unknown (by simp) authorized
      · left
        exact owner ▸ isVouchedOrSigned_of_unknown (by simp) authorized
    simp only [linked, Bool.not_true, Bool.false_eq_true, if_false, balance?, stored,
      Store.block?, Except.mapError, bind, Except.bind, pure, Except.pure, absent,
      Identifier.isZero_iff, if_neg later, Option.map_none]
    unfold refuseEpochGap refuse
    split
    · exact ⟨_, rfl, rfl⟩
    split
    · exact ⟨_, rfl, rfl⟩
    · next notAccount =>
        rw [if_pos (signed.resolve_left notAccount)]
        exact ⟨_, rfl, rfl⟩
  · have notEpoch : sideband.details.isEpoch = false := by
      by_contra isEpoch
      exact linked ((Table.contains_eq_true_iff _ _).mpr
        (exists_upgrade form due.suits (by simpa using isEpoch)))
    have signed := due.signed notEpoch hint
    rw [← owner] at signed
    simp only [linked, Bool.not_false, if_true, bind, Except.bind, judgeTransfer, stored,
      Store.hasBlock, Store.account?, Except.mapError, pure, Except.pure, missing, signed]
    cases part.accounts.get? content.account <;>
      simp [owned, later, gone, refuse, refuseAfter]

/-- Without its predecessor a block has a gap before it. -/
theorem judge_gapPrevious (later : block.previous ≠ .zero) : ∃ receipt,
    judge constants hint block part = .ok (.refused receipt) ∧
      receipt.verdict = .gapPrevious := by
  cases form : block.content with
  | opening content => exact absurd (Block.previous_of_form form) later
  | state content =>
      simp only [judge, form]
      rw [Block.previous_of_form form] at later
      exact due.judgeState_gap absent form later
  | send content | receive content | change content =>
      have legacy : block.kind.isLegacy := congrArg BlockKind.isLegacy (Block.kind_of_form form)
      obtain ⟨rest, judged⟩ := exists_judgeAfter hint part constants legacy later
      exact ⟨_, judged.trans (judgeAfter_of_absent due.missing absent), rfl⟩

end Previous

/-! ## A missing source -/

section Source

variable {source : BlockHash} (sound : constants.Sound)
  (previous : block.previous ≠ .zero → ∃ before, part.blocks.get? block.previous = some before)

include previous

/-- A block whose predecessor is there follows it there as well. -/
theorem follows (later : block.previous ≠ .zero) : ∃ before,
    part.blocks.get? block.previous = some before ∧ Follows before ⟨block, sideband⟩ := by
  obtain ⟨before, found, follows⟩ := due.suits.justified.follows later
  exact follows_agrees (Within.agrees (Within.refl _) due.within) (.refl _) previous later found
    follows

include sound

theorem judgeReceive_gap {content : ReceiveContent} (form : block.content = .receive content)
    (absent : part.blocks.get? content.source = none) : ∃ receipt,
      judgeReceive hint block content part = .ok (.refused receipt) ∧
        receipt.verdict = .gapSource := by
  have legacy : block.kind.isLegacy := congrArg BlockKind.isLegacy (Block.kind_of_form form)
  have later : block.previous ≠ .zero := by
    intro isFirst
    simpa [Block.representative?, form, Content.representative?]
      using (due.suits.justified.first isFirst).2
  obtain ⟨before, found, follows⟩ := due.follows previous later
  obtain ⟨record, continued⟩ :=
    continued_of_vacant due.partCoherent due.vacant sound found follows
  have place := continued.legacyPlace due.partCoherent legacy (due.suits.authorized.hinted hint)
    (due.suits.justified.legacy legacy)
  have gone := (Table.contains_eq_false_iff _ _).mpr absent
  refine ⟨⟨.gapSource, .zero, .zero, .zero, .valid, .zero⟩, ?_, rfl⟩
  rw [judgeReceive_eq hint part form, place.judgeAfter_eq due.missing legacy later]
  simp [Store.hasBlock, pure, Except.pure, place.signed, gone, refuse]

theorem judgeState_gapSource {content : StateContent} (form : block.content = .state content)
    (receives : StoredBlock.transfer ⟨block, sideband⟩ = .receives source)
    (absent : part.blocks.get? source = none) : ∃ receipt,
      judge constants hint block part = .ok (.refused receipt) ∧
        receipt.verdict = .gapSource := by
  obtain ⟨owner, balance, spends⟩ := state_reflects form due.suits
  obtain ⟨owned, permitted⟩ := state_permitted form due.suits
  have notEpoch : sideband.details.isEpoch = false := by
    by_contra isEpoch
    have neither := (due.suits.justified.upgrades (by simpa using isEpoch)).1
    simp [neither] at receives
  rw [if_neg (by simp [notEpoch])] at permitted
  rw [state_transfer form] at receives
  have isReceive : sideband.details.isSend = false ∧ sideband.details.isReceive = true ∧
      content.link.asBlockHash = source := by
    split at receives
    · simp at receives
    split at receives
    · next notSend gains =>
        exact ⟨by simpa using notSend, gains, Transfer.receives.inj receives⟩
    · simp at receives
  obtain ⟨notSend, gains, rfl⟩ := isReceive
  have linked : content.link ≠ .zero := by
    have hasLink := permitted.receives
    rw [gains, notSend] at hasLink
    exact (Identifier.isZero_eq_false_iff _).mp (by simpa using hasLink)
  have keeps := balanceBefore_agrees due.finalCoherent due.partCoherent
    (Within.agrees (Within.refl _) due.within) (.refl ⟨block, sideband⟩) due.finalPrevious previous
  have signed := due.signed notEpoch hint
  rw [← owner] at signed
  obtain ⟨existing, continues, balanceIs, -, -, -, opened⟩ := exists_continues form due.partCoherent
    sound due.vacant owner owned (fun isFirst => (due.suits.justified.first isFirst).1)
    (due.follows previous)
  rw [judge_eq_judgeTransfer form due.partCoherent.zero_absent
    (fun isLink => keeps.symm ▸ permitted.moves isLink) previous]
  refine ⟨_, judgeTransfer_gap due.missing signed continues ?_ ?_ linked
    ((Table.contains_eq_false_iff _ _).mpr absent), rfl⟩
  · intro isSome
    have later : block.previous ≠ .zero := mt opened.mpr (Option.isSome_iff_ne_none.mp isSome)
    obtain ⟨before, found⟩ := previous later
    rw [Block.previous_of_form form] at found
    exact (Table.contains_eq_true_iff _ _).mpr ⟨before, found⟩
  · rw [← balanceIs, keeps, Amount.lt_iff_toNat_lt, ← spends, notSend]
    exact Bool.false_ne_true

/-- With its predecessor, but without the send that it receives, a block has a gap at its
source. -/
theorem judge_gapSource (receives : StoredBlock.transfer ⟨block, sideband⟩ = .receives source)
    (absent : part.blocks.get? source = none) : ∃ receipt,
      judge constants hint block part = .ok (.refused receipt) ∧
        receipt.verdict = .gapSource := by
  cases form : block.content with
  | send content | change content => simp [StoredBlock.transfer, form] at receives
  | state content => exact due.judgeState_gapSource sound previous form receives absent
  | receive content =>
      simp only [StoredBlock.transfer, form, Transfer.receives.injEq] at receives
      simp only [judge, form]
      exact due.judgeReceive_gap sound previous form (receives ▸ absent)
  | opening content =>
      simp only [StoredBlock.transfer, form, Transfer.receives.injEq] at receives
      have reflects := due.suits.justified.reflects
      simp only [Reflects, form] at reflects
      have legacy : block.kind.isLegacy := congrArg BlockKind.isLegacy (Block.kind_of_form form)
      have signed := signed_of_plain (due.suits.authorized.hinted hint)
        (due.suits.justified.legacy legacy)
      rw [← reflects] at signed
      have missing := due.missing
      have gone := (Table.contains_eq_false_iff _ _).mpr (receives ▸ absent)
      refine ⟨⟨.gapSource, .zero, .zero, .zero, .valid, .zero⟩, ?_, rfl⟩
      simp [judge, form, judgeOpening, Store.hasBlock, pure, Except.pure, missing, signed, gone,
        refuse]

end Source

/-! ## Any offer -/

/-- With all that it builds on, a block is taken in. -/
theorem grows (sound : constants.Sound)
    (previous : block.previous ≠ .zero → ∃ before, part.blocks.get? block.previous = some before)
    (source : ∀ source, StoredBlock.transfer ⟨block, sideband⟩ = .receives source →
      ∃ send, part.blocks.get? source = some send) (now : Timestamp) :
    Grows constants part ⟨now, hint, block⟩
      (part.append ⟨block, { sideband with timestamp := now }⟩) := by
  have suits := suits_agrees due.finalCoherent due.partCoherent sound
    (Within.agrees (Within.refl _) due.within) (.refl _) previous (due.suits.hinted hint) source
  exact suits.grows due.partCoherent sound due.vacant
    (due.finalCoherent.keyed due.found).2 now

/-- A block that is due is taken in, or has a gap where something is missing. -/
theorem tries (sound : constants.Sound) (now : Timestamp) :
    Tries part now ⟨block, sideband⟩ ((process constants now hint block).run part) := by
  by_cases previous : block.previous ≠ .zero →
      ∃ before, part.blocks.get? block.previous = some before
  · by_cases source : ∀ source, StoredBlock.transfer ⟨block, sideband⟩ = .receives source →
        ∃ send, part.blocks.get? source = some send
    · obtain ⟨receipt, returned, progresses⟩ := due.grows sound previous source now
      have taken : (process constants now hint block).run part = _ := returned
      rw [taken]
      exact .taken progresses
    · push Not at source
      obtain ⟨source, receives, absent⟩ := source
      have gone := Option.eq_none_iff_forall_ne_some.mpr absent
      obtain ⟨receipt, judged, isGap⟩ := due.judge_gapSource sound previous receives gone
      rw [run_process, judged]
      exact .gapSource isGap receives gone
  · push Not at previous
    obtain ⟨later, absent⟩ := previous
    have gone := Option.eq_none_iff_forall_ne_some.mpr absent
    obtain ⟨receipt, judged, isGap⟩ := due.judge_gapPrevious gone later
    rw [run_process, judged]
    exact .gapPrevious isGap later gone

end Due

end Ledger

end AccountChains
