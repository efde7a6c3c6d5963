import AccountChains.Proofs.Ledger.Admission

/-!
Contract: acceptance told from the blocks alone.

Whether a block is accepted depends on the blocks that it builds on, on what its
signature is known to be, and on its place being free. Everything else that is
looked up on the way follows from the block table.

Owns: `Suits` and `Vacant`, and that every accepted block has both. Does not own:
that they are enough.
-/

namespace AccountChains

open BlockTable Tables

namespace Ledger

/-- The key that has to have signed a block accepts the signature, or the hint vouches for it. -/
def Authorized (constants : LedgerConstants) (hint : Verification) (stored : StoredBlock) : Prop :=
  if stored.sideband.details.isEpoch then
    isVouchedOrSigned hint .validEpoch stored.block
      ((constants.epochs.signer? stored.block.link).getD .zero)
  else isVouchedOrSigned hint .valid stored.block stored.sideband.account

/-- A state block is an epoch block: its link leads to the epoch, and it names the representative
that its account has. -/
structure Upgrading (constants : LedgerConstants) (blocks : BlockTable) (stored : StoredBlock)
    (content : StateContent) : Prop where
  leads : constants.epochs.epoch? content.link = some stored.sideband.details.epoch
  unnamed : stored.block.previous = .zero → content.representative = .zero
  agrees : stored.block.previous ≠ .zero → ∃ naming found,
    NamedBy blocks stored.block.previous naming ∧ blocks.get? naming = some found ∧
      found.block.representative? = some content.representative

/-- A state block is no epoch block: it changes the balance if its link is one, and it receives
if it has a link and does not spend. -/
structure Transferring (constants : LedgerConstants) (blocks : BlockTable) (stored : StoredBlock)
    (content : StateContent) : Prop where
  moves : constants.epochs.isEpochLink content.link → content.balance ≠ balanceBefore blocks stored
  receives : stored.sideband.details.isReceive
    = (!stored.sideband.details.isSend && !content.link.isZero)
  linked : stored.block.previous = .zero → content.link ≠ .zero

/-- A block does what its kind may do, to an account that may be used. -/
def Permitted (constants : LedgerConstants) (blocks : BlockTable) (stored : StoredBlock) : Prop :=
  match stored.block.content with
  | .opening content => content.account ≠ constants.burnAccount
  | .state content => content.account ≠ .zero ∧
      if stored.sideband.details.isEpoch then Upgrading constants blocks stored content
      else Transferring constants blocks stored content
  | .change _ => stored.block.previous ≠ .zero
  | .send _ | .receive _ => True

/-- A block with its sideband suits the blocks that it builds on. -/
structure Suits (constants : LedgerConstants) (hint : Verification) (blocks : BlockTable)
    (stored : StoredBlock) : Prop where
  justified : Justified blocks stored
  authorized : Authorized constants hint stored
  permitted : Permitted constants blocks stored

/-- The place of a block is free: it is not there, and no other block has its slot or receives
what it receives. -/
structure Vacant (genesis : BlockHash) (blocks : BlockTable) (stored : StoredBlock) : Prop where
  fresh : blocks.get? stored.hash = none
  slot : ∀ {hash other}, blocks.get? hash = some other →
    other.block.previous = stored.block.previous →
    other.sideband.account ≠ stored.sideband.account
  source : ∀ {source}, stored.transfer = .receives source → Unreceived genesis blocks source

theorem Vacant.missing {genesis : BlockHash} {blocks : BlockTable} {block : Block}
    {sideband : Sideband} (vacant : Vacant genesis blocks ⟨block, sideband⟩) :
    blocks.contains block.hash = false :=
  (Table.contains_eq_false_iff _ _).mpr vacant.fresh

/-! ## Hints -/

theorem isVouchedOrSigned_of_unknown {vouched : Verification} {block : Block} {signer : Account}
    (known : vouched ≠ .unknown) (signed : isVouchedOrSigned .unknown vouched block signer) :
    block.isSignedBy signer := by
  unfold isVouchedOrSigned at signed
  cases vouched <;> simp_all

theorem isVouchedOrSigned_of_signed {block : Block} {signer : Account}
    (signed : block.isSignedBy signer) (hint vouched : Verification) :
    isVouchedOrSigned hint vouched block signer := by
  rw [isVouchedOrSigned, signed, Bool.or_true]

/-- A block that is signed by whoever has to sign it needs no hint. -/
theorem Authorized.hinted {constants : LedgerConstants} {stored : StoredBlock}
    (authorized : Authorized constants .unknown stored) (hint : Verification) :
    Authorized constants hint stored := by
  unfold Authorized at authorized ⊢
  split at authorized
  · next isEpoch =>
      rw [if_pos isEpoch]
      exact isVouchedOrSigned_of_signed (isVouchedOrSigned_of_unknown (by simp) authorized) hint _
  · next notEpoch =>
      rw [if_neg notEpoch]
      exact isVouchedOrSigned_of_signed (isVouchedOrSigned_of_unknown (by simp) authorized) hint _

theorem Suits.hinted {constants : LedgerConstants} {blocks : BlockTable} {stored : StoredBlock}
    (suits : Suits constants .unknown blocks stored) (hint : Verification) :
    Suits constants hint blocks stored :=
  ⟨suits.justified, suits.authorized.hinted hint, suits.permitted⟩

/-! ## Accepted blocks -/

/-- If a judgement takes a block in, it does so as an epoch block. -/
def Judgement.IsUpgrade : Judgement → Prop
  | .refused _ | .accepted (.upgrade ..) => True
  | .accepted _ => False

section Accepting

variable {constants : LedgerConstants} {hint : Verification} {block : Block} {tables : Tables}
  {entry : Entry}

theorem isUpgrade_judgeUpgrade {σ : Type} [Store σ] (content : StateContent) (store : σ) :
    Gives Judgement.IsUpgrade (judgeUpgrade constants hint block content store) := by
  unfold judgeUpgrade
  repeat' first
    | exact .pure trivial
    | refine .ite (fun _ => ?_) fun _ => ?_
    | refine .bind (.self _) fun _ _ => ?_
    | split

/-- A state block with an epoch link that is no epoch block changes the balance. -/
theorem transfer_moves {existing : Option AccountRecord} {content : StateContent}
    {details : BlockDetails} {amount : Amount} {sourceEpoch : Epoch}
    (form : block.content = .state content)
    (judged : judge constants hint block tables
      = .ok (.accepted (.transfer existing content details amount sourceEpoch)))
    (linked : constants.epochs.isEpochLink content.link) (sideband : Sideband)
    (zeroAbsent : tables.blocks.get? .zero = none) :
    content.balance ≠ balanceBefore tables.blocks ⟨block, sideband⟩ := by
  have previous : block.previous = content.previous := Block.previous_of_form form
  intro keeps
  have upgrades : judge constants hint block tables
        = judgeUpgrade constants hint block content tables ∨
      judge constants hint block tables
        = .ok (refuseEpochGap constants hint block content) := by
    unfold balanceBefore at keeps
    rw [previous] at keeps
    unfold judge judgeState
    simp only [form, linked, Bool.not_true, Bool.false_eq_true, if_false, balance?, stored,
      Store.block?, Except.mapError, bind, Except.bind, pure, Except.pure]
    by_cases isFirst : content.previous = .zero
    · rw [isFirst, zeroAbsent] at keeps
      rw [if_pos ((Identifier.isZero_iff _).mpr isFirst)]
      exact .inl (if_pos keeps)
    · rw [if_neg (mt (Identifier.isZero_iff _).mp isFirst)]
      cases found : tables.blocks.get? content.previous with
      | none => exact .inr rfl
      | some before =>
          rw [found] at keeps
          exact .inl (if_pos keeps)
  rcases upgrades with upgrade | gap
  · exact isUpgrade_judgeUpgrade content tables _ (upgrade.symm.trans judged)
  · rw [judged] at gap
    unfold refuseEpochGap refuse at gap
    split at gap
    · simp at gap
    split at gap
    · simp at gap
    split at gap <;> simp at gap

variable (coherent : tables.Coherent constants)

include coherent

theorem vacant_of_admissible {stored : StoredBlock} (admissible : tables.Admissible stored) :
    Vacant constants.genesis.hash tables.blocks stored where
  fresh := admissible.fresh
  slot := by
    intro hash other found previous owner
    cases admissible.placed with
    | first absent =>
        obtain ⟨record, belongs⟩ := coherent.belongs found
        have otherFound := belongs.found
        rw [owner, absent] at otherFound
        simp at otherFound
    | next recorded isHead =>
        obtain ⟨head, describes⟩ := coherent.recorded recorded
        have isNext : other.block.previous = _ := previous.trans isHead
        have linked := coherent.successor_of found (isNext ▸ (coherent.keyed describes.found).2)
        rw [isNext, describes.last] at linked
        simp at linked
  source receives := coherent.append_unreceived admissible receives

omit coherent in
theorem authorized_of_accepted (accepted : Accepted constants hint block tables entry)
    (now : Timestamp) : Authorized constants hint ⟨block, entry.sideband now⟩ := by
  unfold Authorized
  cases accepted with
  | send form follows => exact follows.signed
  | receive form follows => exact follows.signed
  | opening form absent signed => exact signed
  | change form follows => exact follows.signed
  | outgoing form absent signed => exact signed
  | standing form absent signed => exact signed
  | incoming form absent signed => exact signed
  | upgrade form absent signed => exact (Block.link_of_form form).symm ▸ signed

theorem permitted_of_judge (judged : judge constants hint block tables = .ok (.accepted entry))
    (now : Timestamp) : Permitted constants tables.blocks ⟨block, entry.sideband now⟩ := by
  have accepted := accepted_of_judge judged
  have previous := accepted.previous_eq coherent
  have moves {existing : Option AccountRecord} {content : StateContent} {details : BlockDetails}
      {amount : Amount} {sourceEpoch : Epoch} (form : block.content = .state content)
      (isTransfer : entry = .transfer existing content details amount sourceEpoch)
      (linked : constants.epochs.isEpochLink content.link) :
      content.balance ≠ balanceBefore tables.blocks ⟨block, entry.sideband now⟩ :=
    transfer_moves form (isTransfer ▸ judged) linked _ coherent.zero_absent
  have continued {record : AccountRecord} {content : StateContent}
      (continues : Continues tables content (some record)) (isFirst : record.head = .zero) :
      False := continues.named rfl (continues.previous.trans isFirst)
  unfold Permitted
  cases accepted with
  | send form => simp only [form]
  | receive form => simp only [form]
  | opening form absent signed source unopened waits owned =>
      simp only [form]
      exact owned
  | change form follows =>
      simp only [form]
      obtain ⟨isHead, head, found, -⟩ := follows.head coherent
      exact isHead ▸ (coherent.keyed found).2
  | outgoing form absent signed continues spends =>
      simp only [form]
      refine ⟨continues.owned, moves form rfl, by simp [Entry.sideband], fun isFirst => ?_⟩
      exact absurd (previous.symm.trans isFirst) (continued continues)
  | standing form absent signed continues unlinked keeps =>
      simp only [form]
      refine ⟨continues.owned, moves form rfl, by simp [Entry.sideband, unlinked],
        fun isFirst => ?_⟩
      exact absurd (previous.symm.trans isFirst) (continued continues)
  | incoming form absent signed continues covered linked =>
      simp only [form]
      exact ⟨continues.owned, moves form rfl, by simp [Entry.sideband, linked], fun _ => linked⟩
  | @upgrade existing content epoch form absent signed continues unnamed agrees leads =>
      simp only [form]
      refine ⟨continues.owned, leads, fun isFirst => ?_, fun later => ?_⟩
      · cases existing with
        | none => exact unnamed rfl
        | some record => exact absurd (previous.symm.trans isFirst) (continued continues)
      · cases existing with
        | none => exact absurd previous later
        | some record =>
            obtain ⟨head, describes⟩ := coherent.recorded continues.recorded
            obtain ⟨naming, named, found, -⟩ := describes.representative.names
            have leadsTo := agrees record rfl
            rw [representativeOf, found, Option.bind_some] at leadsTo
            have isHead : block.previous = record.head := previous
            exact ⟨_, naming, isHead ▸ describes.representative, found, leadsTo⟩

variable (sound : constants.Sound)

include sound

/-- An accepted block suits the blocks that it builds on, and its place is free. -/
theorem suits_of_judge (judged : judge constants hint block tables = .ok (.accepted entry))
    (room : entry.HasRoom) (now : Timestamp) (named : block.hash ≠ .zero) :
    Suits constants hint tables.blocks ⟨block, entry.sideband now⟩ ∧
      Vacant constants.genesis.hash tables.blocks ⟨block, entry.sideband now⟩ := by
  have accepted := accepted_of_judge judged
  have admissible := accepted.admissible coherent sound room now named
  exact ⟨⟨admissible.justified, authorized_of_accepted accepted now,
    permitted_of_judge coherent judged now⟩, vacant_of_admissible coherent admissible⟩

end Accepting

end Ledger

end AccountChains
