import AccountChains.Proofs.Intake.Checking
import AccountChains.Proofs.Ledger.Hints

/-!
Contract: the check of a batch and the check that the ledger makes come to the same.

The batch goes by the link of a block alone. The ledger also looks at the block before it,
so what is checked as an epoch block may be a send there. This does no harm: what the batch
says about a signature is true, and a true hint changes nothing. Only a block whose link is
no epoch link is dropped, and of such a block the ledger checks the same signature.

Owns: what the ledger would have made of each block of a batch. Does not own: what a true
hint changes, and which queue a checked block goes to.
-/

namespace AccountChains

open BlockTable Ledger

/-- What becomes of a block does not depend on its being checked ahead: the answer is about the
block alone, the ledger would refuse a block that is dropped, and it treats any other one the same
with the answer for a hint as without it. -/
structure QueuedBlock.Screened (constants : LedgerConstants) (tables : Tables) (item : QueuedBlock)
    (answer : Verification) : Prop where
  alone : ∀ (threads : Nat) (batch : List QueuedBlock) (position : Nat),
    batch[position]? = some item →
      (verifyAll constants.epochs threads batch)[position]? = some answer
  dropped : answer = .invalid → ∀ now, ∃ receipt,
    (process constants now .unknown item.block).run tables = (.ok receipt, tables) ∧
      (receipt.verdict = .old ∨ receipt.verdict = .badSignature)
  passed : answer ≠ .invalid → ∀ now,
    SameOutcome ((process constants now answer item.block).run tables)
      ((process constants now .unknown item.block).run tables)

namespace Ledger

variable {constants : LedgerConstants} {block : Block} {tables : Tables}

/-- A block that is refused at the first look: it is there already, or it is not signed. -/
def Unsigned (answer : Answer Judgement) : Prop :=
  ∃ receipt, answer = .ok (.refused receipt) ∧
    (receipt.verdict = .old ∨ receipt.verdict = .badSignature)

/-- What a judge looks at first: whether the block is there, and whether it is signed. -/
theorem Unsigned.refuse (isOld : Bool) (rest : Answer Judgement) :
    Unsigned (if isOld then pure (Ledger.refuse .old .unknown)
      else if !false then pure (Ledger.refuse .badSignature .unknown) else rest) := by
  cases isOld with
  | true => exact ⟨_, rfl, .inl rfl⟩
  | false => exact ⟨_, rfl, .inr rfl⟩

theorem unsigned_judgeOpening {content : OpeningContent}
    (unsigned : block.isSignedBy content.account = false) :
    Unsigned (judgeOpening constants .unknown block content tables) := by
  unfold judgeOpening
  rw [isVouchedOrSigned_unhinted (by decide), unsigned]
  exact .refuse ..

theorem unsigned_judgeTransfer {content : StateContent}
    (unsigned : block.isSignedBy content.account = false) :
    Unsigned (judgeTransfer .unknown block content tables) := by
  unfold judgeTransfer
  rw [isVouchedOrSigned_unhinted (by decide), unsigned]
  exact .refuse ..

end Ledger

namespace QueuedBlock

variable {constants : LedgerConstants} {item : QueuedBlock} {tables : Tables}

/-- A block that has to be checked, and for which nobody vouches, names its account. -/
theorem NamesAccount.of_needsVerification (waits : item.needsVerification)
    (unvouched : item.account = .zero) : item.NamesAccount := by
  simp only [needsVerification, unvouched, (Identifier.isZero_iff .zero).mpr rfl, Bool.not_true,
    Bool.or_false, Bool.and_eq_true, Bool.or_eq_true, beq_iff_eq] at waits
  exact waits.2

/-- Without an epoch link, a failed check against the account that the block names is final. -/
theorem checked_eq_of_plain {links : EpochLinks} (plain : item.epochSigner? links = none)
    (unvouched : item.account = .zero) :
    item.checked links = if item.block.isSignedBy item.block.account then .valid else .invalid := by
  have isOwner : item.expectedSigner links = item.block.account := by
    rw [expectedSigner, plain, unvouched]
    rfl
  have concludes (isAuthentic : Bool) : item.conclusion links isAuthentic
      = if isAuthentic then .valid else .invalid := by
    unfold conclusion
    rw [plain]
    cases isAuthentic <;> rfl
  unfold checked
  rw [isOwner, concludes]

/-- With an epoch link, a failed check against its signer says nothing. -/
theorem checked_eq_of_linked {links : EpochLinks} {signer : Account}
    (linked : item.epochSigner? links = some signer) :
    item.checked links = if item.block.isSignedBy signer then .validEpoch else .unknown := by
  have isSigner : item.expectedSigner links = signer := by
    unfold expectedSigner
    rw [linked]
  have concludes (isAuthentic : Bool) : item.conclusion links isAuthentic
      = if isAuthentic then .validEpoch else .unknown := by
    unfold conclusion
    rw [linked]
    cases isAuthentic <;> rfl
  unfold checked
  rw [isSigner, concludes]

/-- The owner of a block that names its account is the account it names. -/
theorem NamesAccount.eq_of_belongsTo (names : item.NamesAccount) {blocks : BlockTable}
    {owner : Account} (belongs : BelongsTo blocks item.block owner) :
    owner = item.block.account := by
  unfold NamesAccount Block.kind at names
  unfold Block.account
  cases belongs with
  | named own => cases form : item.block.content <;> simp_all [Content.lineage, Content.account]
  | following follows found =>
      cases form : item.block.content <;> simp_all [Content.lineage, Content.kind]

-- The answer is a variable here: what is said for each answer must not be found by checking.
/-- What a passed check says about the signature of a block is true. -/
theorem truthful_of_checked {answer : Verification}
    (answers : item.checked constants.epochs = answer) (unvouched : item.account = .zero)
    (names : item.NamesAccount) (passed : answer ≠ .invalid) (blocks : BlockTable) :
    Truthful constants blocks item.block answer := by
  cases epochSigner : item.epochSigner? constants.epochs with
  | none =>
      rw [checked_eq_of_plain epochSigner unvouched] at answers
      split at answers
      next signed =>
        subst answers
        intro owner belongs
        rw [names.eq_of_belongsTo belongs]
        exact signed
      next => exact absurd answers.symm passed
  | some signer =>
      rw [checked_eq_of_linked epochSigner] at answers
      split at answers
      next signed =>
        subst answers
        intro registered isRegistered
        unfold epochSigner? at epochSigner
        split at epochSigner
        · exact nomatch epochSigner
        · obtain rfl := Option.some.inj (isRegistered.symm.trans epochSigner)
          exact signed
      next =>
        subst answers
        trivial

/-- A block without an epoch link is judged as a transfer. -/
theorem isEpochLink_of_plain (unlinked : constants.epochs.isEpochLink .zero = false)
    (plain : item.epochSigner? constants.epochs = none) :
    constants.epochs.isEpochLink item.block.link = false := by
  unfold epochSigner? at plain
  by_cases isZero : item.block.link.isZero
  · rwa [(Identifier.isZero_iff _).mp isZero]
  · rw [if_neg isZero] at plain
    have unregistered := Option.map_eq_none_iff.mp plain
    simp [EpochLinks.isEpochLink, Table.contains, unregistered]

/-- A block that is dropped would have been refused. -/
theorem unsigned_of_invalid (unlinked : constants.epochs.isEpochLink .zero = false)
    (unvouched : item.account = .zero) (names : item.NamesAccount)
    (dropped : item.checked constants.epochs = .invalid) (tables : Tables) :
    Unsigned (judge constants .unknown item.block tables) := by
  cases epochSigner : item.epochSigner? constants.epochs with
  | some signer =>
      rw [checked_eq_of_linked epochSigner] at dropped
      split at dropped <;> exact nomatch dropped
  | none =>
      rw [checked_eq_of_plain epochSigner unvouched] at dropped
      have unsigned : item.block.isSignedBy item.block.account = false := by
        by_contra isSigned
        rw [if_pos (by simpa using isSigned)] at dropped
        exact nomatch dropped
      have plain := isEpochLink_of_plain unlinked epochSigner
      unfold judge
      cases form : item.block.content with
      | send | receive | change => simp [NamesAccount, Block.kind, form, Content.kind] at names
      | opening content =>
          rw [Block.account, form] at unsigned
          exact unsigned_judgeOpening unsigned
      | state content =>
          rw [Block.account, form] at unsigned
          rw [Block.link_of_form form] at plain
          simp only [judgeState, show constants.epochs.isEpochLink content.link = false from plain,
            Bool.not_false, if_true]
          exact unsigned_judgeTransfer unsigned

end QueuedBlock

/-- In every state that a ledger gets into, checking a batch of blocks for which nobody vouches
changes nothing: what it answers for a block is about this block alone, a block that it drops would
have been refused without a trace, and any other block fares as without the check. -/
theorem Ledger.Reachable.screened {constants : LedgerConstants} {tables : Tables}
    (reachable : Reachable constants tables) (sound : constants.Sound)
    (unlinked : constants.epochs.isEpochLink .zero = false) (threads : Nat)
    {batch : List QueuedBlock}
    (waiting : ∀ item ∈ batch, item.needsVerification ∧ item.account = .zero)
    {position : Nat} {item : QueuedBlock} (isItem : batch[position]? = some item) :
    ∃ answer, (QueuedBlock.verifyAll constants.epochs threads batch)[position]? = some answer ∧
      item.Screened constants tables answer := by
  obtain ⟨waits, unvouched⟩ := waiting item (List.mem_of_getElem? isItem)
  have names := QueuedBlock.NamesAccount.of_needsVerification waits unvouched
  have alone (threads : Nat) (batch : List QueuedBlock) (position : Nat)
      (isItem : batch[position]? = some item) :
      (QueuedBlock.verifyAll constants.epochs threads batch)[position]?
        = some (item.checked constants.epochs) := by
    rw [QueuedBlock.verifyAll_eq, List.getElem?_map, isItem]
    rfl
  generalize answers : item.checked constants.epochs = answer at alone
  refine ⟨answer, alone threads batch position isItem, alone, ?_, fun passed now => ?_⟩
  · rintro rfl now
    obtain ⟨receipt, refused, verdict⟩ :=
      QueuedBlock.unsigned_of_invalid unlinked unvouched names answers tables
    exact ⟨receipt, by rw [run_process, refused], verdict⟩
  · exact sameOutcome_of_alike (alike_judge (reachable.coherent sound)
      (QueuedBlock.truthful_of_checked answers unvouched names passed _)) now

/-- The opening is not signed, and the first send waits for it. -/
theorem devOpening_screened : ∃ answer,
    (QueuedBlock.verifyAll LedgerConstants.dev.epochs 2
      [.plain ⟨0, devOpening⟩ .zero, .plain ⟨1, devOpening⟩ .zero])[1]? = some answer ∧
    (QueuedBlock.plain ⟨1, devOpening⟩ .zero).Screened .dev devSent answer :=
  reachable_devSent.screened dev_sound (by decide +kernel) 2 (by simp +decide) rfl

end AccountChains
