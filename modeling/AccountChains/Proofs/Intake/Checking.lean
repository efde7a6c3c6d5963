import AccountChains.Intake.Queues
import AccountChains.Proofs.Ledger.Gaps

/-!
Contract: checking signatures ahead of the ledger.

A batch is cut into tasks, but each block is checked by itself. A block that the
ledger takes in without a hint is signed by whoever has to sign it; the check
before it is against the same signer, unless a link could be an epoch link, and
then a failed check leaves the matter open. So such a block is never dropped.

Owns: what a batch of checks answers for each block, and the queues that its blocks are
put back to. Does not own: who takes them out.
-/

namespace AccountChains

open BlockTable Ledger

theorem SignedMessage.flatten_divide (size count : Nat) (rest : List SignedMessage) :
    (tasks.divide size count rest).flatten = rest := by
  induction count generalizing rest with
  | zero => simp [tasks.divide]
  | succ count inductionHypothesis =>
      unfold tasks.divide
      split
      · simp
      · rw [List.flatten_cons, inductionHypothesis, List.take_append_drop]

/-- The tasks of a batch are the batch. -/
theorem SignedMessage.flatten_tasks (threads : Nat) (batch : List SignedMessage) :
    (tasks threads batch).flatten = batch := by
  unfold tasks
  split
  · simp
  · exact flatten_divide _ _ batch

theorem SignedMessage.areAuthentic_eq (threads : Nat) (batch : List SignedMessage) :
    areAuthentic threads batch = batch.map isAuthentic := by
  rw [areAuthentic, List.flatMap_def, ← List.map_flatten, flatten_tasks]

namespace QueuedBlock

variable {constants : LedgerConstants} {links : EpochLinks} {item : QueuedBlock}

/-- What the check of one block tells about its signature. -/
def checked (links : EpochLinks) (item : QueuedBlock) : Verification :=
  item.conclusion links (item.block.isSignedBy (item.expectedSigner links))

theorem verifyAll_eq (links : EpochLinks) (threads : Nat) (batch : List QueuedBlock) :
    verifyAll links threads batch = batch.map (checked links) := by
  simp only [verifyAll, SignedMessage.areAuthentic_eq]
  induction batch with
  | nil => rfl
  | cons item rest inductionHypothesis =>
      simp only [List.map_cons, List.zipWith_cons_cons, inductionHypothesis]
      rfl

/-- A failed check is final only if the block has no epoch link. -/
theorem conclusion_ne_invalid {isAuthentic : Bool}
    (signed : item.epochSigner? links = none → isAuthentic = true) :
    item.conclusion links isAuthentic ≠ .invalid := by
  unfold conclusion
  cases epochSigner : item.epochSigner? links with
  | some signer => cases isAuthentic <;> simp
  | none => simp [signed epochSigner]

/-- The ledger can tell from a block alone who has to sign it: it names its account. -/
def NamesAccount (item : QueuedBlock) : Prop :=
  item.block.kind = .state ∨ item.block.kind = .opening

variable {blocks : BlockTable} {sideband : Sideband}

/-- A block that suits a ledger passes the check before it. -/
theorem checked_of_suits (suits : Suits constants .unknown blocks ⟨item.block, sideband⟩)
    (unlinked : constants.epochs.isEpochLink .zero = false) (unvouched : item.account = .zero)
    (names : item.NamesAccount) : item.checked constants.epochs ≠ .invalid := by
  refine conclusion_ne_invalid fun noLink => ?_
  have signer : item.expectedSigner constants.epochs = item.block.account := by
    unfold expectedSigner
    rw [noLink, unvouched]
    rfl
  rw [signer]
  have notEpoch (isPlain : sideband.details.isEpoch = false) :
      item.block.isSignedBy sideband.account := by
    have authorized := suits.authorized
    rw [Authorized, if_neg (by simp [isPlain])] at authorized
    exact isVouchedOrSigned_of_unknown (by simp) authorized
  have reflects := suits.justified.reflects
  cases form : item.block.content with
  | send | receive | change => simp [NamesAccount, Block.kind, form, Content.kind] at names
  | opening content =>
      have legacy : item.block.kind.isLegacy :=
        congrArg BlockKind.isLegacy (Block.kind_of_form form)
      have isPlain := suits.justified.legacy legacy
      simp only [Reflects, form] at reflects
      rw [Block.account, form, Content.account, reflects]
      exact notEpoch (by simp [show sideband.details = .plain from isPlain, BlockDetails.plain])
  | state content =>
      simp only [Reflects, form] at reflects
      rw [Block.account, form, Content.account, reflects.1]
      refine notEpoch ?_
      by_contra isEpoch
      -- An epoch block has an epoch link, and the check takes note of every link but zero.
      obtain ⟨upgrade, found⟩ := exists_upgrade form suits (by simpa using isEpoch)
      unfold epochSigner? at noLink
      have isLink : item.block.link = content.link := Block.link_of_form form
      rw [isLink] at noLink
      by_cases isZero : content.link.isZero
      · rw [(Identifier.isZero_iff _).mp isZero] at found
        simp [EpochLinks.isEpochLink, Table.contains, found] at unlinked
      · simp [isZero, EpochLinks.signer?, found] at noLink

end QueuedBlock

/-! ## Putting checked blocks back -/

namespace Queues

theorem foldl_release_eq (items : List QueuedBlock) (queues : Queues) :
    items.foldl (fun queues item => queues.release item.hash) queues = { queues with
      hashes := items.foldl (fun hashes item => hashes.erase item.hash) queues.hashes } := by
  induction items generalizing queues with
  | nil => rfl
  | cons item rest inductionHypothesis => exact inductionHypothesis (queues.release item.hash)

theorem contains_foldl_erase (items : List QueuedBlock) (hashes : Table BlockHash Unit)
    (hash : BlockHash) : (items.foldl (fun hashes item => hashes.erase item.hash) hashes).contains
      hash ↔ hashes.contains hash ∧ ∀ item ∈ items, item.hash ≠ hash := by
  induction items generalizing hashes with
  | nil => simp
  | cons item rest inductionHypothesis =>
      rw [List.foldl_cons, inductionHypothesis, List.forall_mem_cons]
      simp only [Table.contains, Table.get?_erase]
      by_cases same : hash = item.hash
      · simp [same]
      · simp [same, Ne.symm same]

/-- Checked blocks are ready, unless the check has found a bad signature. -/
theorem settleAll_eq_filter (verdict : QueuedBlock → Verification) (items : List QueuedBlock)
    (queues : Queues) : queues.settleAll (items.zip (items.map verdict)) = { queues with
      ready := queues.ready ++ (items.filter fun item => verdict item != .invalid).map
        fun item => { item with verified := verdict item }
      hashes := (items.filter fun item => verdict item == .invalid).foldl
        (fun hashes item => hashes.erase item.hash) queues.hashes } := by
  induction items generalizing queues with
  | nil => simp [settleAll]
  | cons item rest inductionHypothesis =>
      unfold settleAll at inductionHypothesis ⊢
      rw [List.map_cons, List.zip_cons_cons, List.foldl_cons, inductionHypothesis]
      by_cases isBad : verdict item = .invalid
      · simp [settle, isBad, release]
      · simp [settle, isBad]

end Queues

end AccountChains
