import AccountChains.Proofs.Ledger.Append
import AccountChains.Proofs.Ledger.Judgement

/-!
Contract: accepted blocks may be added.

An entry fixes the sideband that its block is stored with. In a coherent ledger
with room for one more block in the account, an accepted block with its sideband
is admissible: what was checked is all that its justification needs.

Owns: the sideband of an entry, and `Accepted.admissible`. Does not own: how an
accepted block is written.
-/

namespace AccountChains

open BlockTable

theorem Block.not_legacy_of_state {block : Block} {content : StateContent}
    (form : block.content = .state content) : ¬ block.kind.isLegacy := by
  simp [Block.kind, form, Content.kind, BlockKind.isLegacy]

namespace Ledger

/-- The record of the account before the block. -/
def Entry.before : Entry → Option AccountRecord
  | .send _ record _ => some record
  | .receive _ record _ _ => some record
  | .opening _ _ => none
  | .change _ record _ => some record
  | .transfer existing _ _ _ _ => existing
  | .upgrade existing _ _ => existing

/-- The height of the block. -/
def Entry.height (entry : Entry) : UInt64 := (entry.before.getD .blank).blockCount + 1

/-- The account can count one more block. -/
def Entry.HasRoom (entry : Entry) : Prop :=
  (entry.before.getD .blank).blockCount.toNat + 1 < UInt64.size

/-- The sideband that an accepted block is stored with. -/
def Entry.sideband (now : Timestamp) (entry : Entry) : Sideband :=
  match entry with
  | .send account _ content => legacySideband account entry.height content.balance now
  | .receive account record _ receivable =>
    legacySideband account entry.height (record.balance.wrappingAdd receivable.amount) now
  | .opening content receivable =>
    legacySideband content.account entry.height receivable.amount now
  | .change account record _ => legacySideband account entry.height record.balance now
  | .transfer _ content details _ sourceEpoch =>
    { account := content.account, height := entry.height, balance := content.balance,
      timestamp := now, details, sourceEpoch }
  | .upgrade existing content epoch =>
    { account := content.account, height := entry.height, balance := balanceOf existing,
      timestamp := now, details := ⟨epoch, false, false, true⟩, sourceEpoch := .zero }

section Admissibility

variable {constants : LedgerConstants} {hint : Verification} {block : Block} {tables : Tables}
  {entry : Entry} {now : Timestamp}

namespace Accepted

theorem fresh (accepted : Accepted constants hint block tables entry) :
    tables.blocks.get? block.hash = none := by
  cases accepted with
  | send _ follows => exact follows.absent
  | receive _ follows => exact follows.absent
  | opening _ absent => exact absent
  | change _ follows => exact follows.absent
  | outgoing _ absent => exact absent
  | standing _ absent => exact absent
  | incoming _ absent => exact absent
  | upgrade _ absent => exact absent

theorem recorded (accepted : Accepted constants hint block tables entry) (now : Timestamp) :
    tables.accounts.get? (entry.sideband now).account = entry.before := by
  cases accepted with
  | send _ follows => exact follows.recorded
  | receive _ follows => exact follows.recorded
  | opening _ _ _ _ unopened => exact unopened
  | change _ follows => exact follows.recorded
  | outgoing _ _ _ continues => exact continues.recorded
  | standing _ _ _ continues => exact continues.recorded
  | incoming _ _ _ continues => exact continues.recorded
  | upgrade _ _ _ continues => exact continues.recorded

end Accepted

variable (coherent : tables.Coherent constants)

include coherent

/-- A legacy block is accepted only after the last block of a legacy chain. -/
theorem FollowsLegacy.head {account : Account} {record : AccountRecord}
    (follows : FollowsLegacy hint block tables account record) :
    block.previous = record.head ∧ ∃ head, tables.blocks.get? record.head = some head ∧
      head.block.kind.isLegacy := by
  obtain ⟨head, found, owner, legacy, last⟩ := (coherent.fronted _ _).mp follows.fronted
  obtain ⟨other, belongs⟩ := coherent.belongs found
  have otherFound := belongs.found
  rw [owner, follows.recorded] at otherFound
  obtain rfl := Option.some.inj otherFound
  have isHead := belongs.last last
  exact ⟨isHead.symm, head, isHead ▸ found, legacy⟩

namespace Accepted

variable (accepted : Accepted constants hint block tables entry)

include accepted

/-- An accepted block comes after the head of its account. -/
theorem previous_eq : block.previous = (entry.before.map AccountRecord.head).getD .zero := by
  cases accepted with
  | send _ follows => exact (follows.head coherent).1
  | receive _ follows => exact (follows.head coherent).1
  | opening form => exact Block.previous_of_form form
  | change _ follows => exact (follows.head coherent).1
  | outgoing form _ _ continues => exact (Block.previous_of_form form).trans continues.previous
  | standing form _ _ continues => exact (Block.previous_of_form form).trans continues.previous
  | incoming form _ _ continues => exact (Block.previous_of_form form).trans continues.previous
  | upgrade form _ _ continues => exact (Block.previous_of_form form).trans continues.previous

theorem placed : Tables.Placed tables ⟨block, entry.sideband now⟩ := by
  have previous := accepted.previous_eq coherent
  have recorded := accepted.recorded now
  cases before : entry.before with
  | none =>
      rw [before] at previous recorded
      exact .first recorded previous
  | some record =>
      rw [before] at previous recorded
      exact .next recorded previous

/-- The record of the account describes the block before. -/
theorem head_recorded (now : Timestamp) {record : AccountRecord}
    (before : entry.before = some record) :
    ∃ head, tables.Recorded (entry.sideband now).account record head :=
  coherent.recorded ((accepted.recorded now).trans before)

/-- What is read from the block before is what the record of the account says. -/
theorem read_before {α : Type} (read : StoredBlock → α) (blank : α)
    (recordRead : AccountRecord → α) (agree : ∀ account record head,
      tables.Recorded account record head → recordRead record = read head) :
    ((tables.blocks.get? block.previous).map read).getD blank
      = (entry.before.map recordRead).getD blank := by
  rw [accepted.previous_eq coherent]
  cases before : entry.before with
  | none => simp [coherent.zero_absent]
  | some record =>
      obtain ⟨head, recorded⟩ := accepted.head_recorded coherent .zero before
      simp [recorded.found, agree _ _ _ recorded]

theorem balanceBefore_eq (sideband : Sideband) :
    balanceBefore tables.blocks ⟨block, sideband⟩ = balanceOf entry.before := by
  refine (accepted.read_before coherent _ _ AccountRecord.balance ?_).trans ?_
  · exact fun _ _ _ recorded => recorded.balance
  · unfold balanceOf
    cases entry.before <;> rfl

theorem epochBefore_eq (sideband : Sideband) :
    epochBefore tables.blocks ⟨block, sideband⟩ = epochOf entry.before := by
  refine (accepted.read_before coherent _ _ AccountRecord.epoch ?_).trans ?_
  · exact fun _ _ _ recorded => recorded.epoch
  · unfold epochOf
    cases entry.before <;> rfl

omit coherent in
theorem height_eq (room : entry.HasRoom) (now : Timestamp) :
    (entry.sideband now).height.toNat = (entry.before.getD .blank).blockCount.toNat + 1 := by
  have height : (entry.sideband now).height = entry.height := by
    cases accepted <;> rfl
  rw [height, Entry.height, UInt64.toNat_add]
  exact Nat.mod_eq_of_lt room

theorem first (room : entry.HasRoom) (now : Timestamp) (isFirst : block.previous = .zero) :
    (entry.sideband now).height.toNat = 1 ∧ block.representative?.isSome := by
  have unopened : entry.before = none := by
    cases before : entry.before with
    | none => rfl
    | some record =>
        obtain ⟨head, recorded⟩ := accepted.head_recorded coherent now before
        have previous := accepted.previous_eq coherent
        rw [before, isFirst] at previous
        exact absurd previous.symm (coherent.keyed recorded.found).2
  refine ⟨?_, ?_⟩
  · rw [accepted.height_eq room, unopened]
    rfl
  · cases accepted with
    | opening form => simp [Block.representative?, form, Content.representative?]
    | incoming form => simp [Block.representative?, form, Content.representative?]
    | upgrade form => simp [Block.representative?, form, Content.representative?]
    | _ => simp [Entry.before] at unopened

theorem legacy_before (legacy : block.kind.isLegacy) {record : AccountRecord}
    (before : entry.before = some record) :
    ∃ head, tables.blocks.get? record.head = some head ∧ head.block.kind.isLegacy := by
  cases accepted with
  | send _ follows =>
      obtain rfl := Option.some.inj before
      exact (follows.head coherent).2
  | receive _ follows =>
      obtain rfl := Option.some.inj before
      exact (follows.head coherent).2
  | opening => simp [Entry.before] at before
  | change _ follows =>
      obtain rfl := Option.some.inj before
      exact (follows.head coherent).2
  | outgoing form => exact absurd legacy (Block.not_legacy_of_state form)
  | standing form => exact absurd legacy (Block.not_legacy_of_state form)
  | incoming form => exact absurd legacy (Block.not_legacy_of_state form)
  | upgrade form => exact absurd legacy (Block.not_legacy_of_state form)

theorem follows (room : entry.HasRoom) (now : Timestamp) (later : block.previous ≠ .zero) :
    ∃ before, tables.blocks.get? block.previous = some before ∧
      Follows before ⟨block, entry.sideband now⟩ := by
  have previous := accepted.previous_eq coherent
  cases before : entry.before with
  | none => simp [before, later] at previous
  | some record =>
      obtain ⟨head, recorded⟩ := accepted.head_recorded coherent now before
      rw [before, Option.map_some, Option.getD_some] at previous
      refine ⟨head, previous ▸ recorded.found, recorded.account, ?_, ?_⟩
      · rw [accepted.height_eq room, before, Option.getD_some, recorded.blockCount]
      · intro legacy
        obtain ⟨other, otherFound, otherLegacy⟩ := accepted.legacy_before coherent legacy before
        obtain rfl := Option.some.inj (recorded.found.symm.trans otherFound)
        exact otherLegacy

/-- What waits under a source has been sent by that source. -/
theorem settles (now : Timestamp) : Settles tables.blocks ⟨block, entry.sideband now⟩ := by
  have before := accepted.balanceBefore_eq coherent (entry.sideband now)
  have previous := accepted.previous_eq coherent
  unfold Settles
  rw [before]
  cases accepted with
  | send form follows covered =>
      simp only [StoredBlock.transfer, form]
      obtain ⟨isHead, head, found, -⟩ := follows.head coherent
      refine ⟨isHead ▸ (coherent.keyed found).2, ?_, rfl⟩
      rw [Amount.lt_iff_toNat_lt] at covered
      exact Nat.le_of_not_lt covered
  | receive form follows source last waits original =>
      simp only [StoredBlock.transfer, form]
      obtain ⟨send, found, sends, -, rfl⟩ := (coherent.waiting _ _).mp waits
      have bounded := coherent.balance_add_amount_le follows.recorded waits
      have fits := constants.genesisAmount.toNat_lt
      refine ⟨send, found, sends, Amount.toNat_wrappingAdd_of_lt (by omega), original.symm⟩
  | opening form absent signed source unopened waits owned original =>
      simp only [StoredBlock.transfer, form]
      obtain ⟨send, found, sends, -, rfl⟩ := (coherent.waiting _ _).mp waits
      exact ⟨send, found, sends, (Nat.zero_add _).symm, original.symm⟩
  | change form follows =>
      simp only [StoredBlock.transfer, form]
      exact ⟨rfl, rfl⟩
  | outgoing form absent signed continues spends =>
      simp only [StoredBlock.transfer, form]
      exact ⟨previous ▸ continues.previous ▸ continues.named rfl, Nat.le_of_lt spends, rfl⟩
  | standing form absent signed continues unlinked keeps =>
      simp only [StoredBlock.transfer, form]
      exact ⟨keeps, rfl⟩
  | @incoming existing content _ form absent signed continues covered linked source waits gains =>
      simp only [StoredBlock.transfer, form]
      obtain ⟨send, found, sends, -, rfl⟩ := (coherent.waiting _ _).mp waits
      rw [Amount.lt_iff_toNat_lt] at covered
      have gained := congrArg Amount.toNat gains
      rw [Amount.toNat_wrappingSub (by omega)] at gained
      simp only at gained
      have settled : content.balance.toNat
          = (balanceOf existing).toNat + (sentAmount tables.blocks send).toNat := by
        omega
      exact ⟨send, found, sends, settled, rfl⟩
  | upgrade form absent signed continues unnamed agrees leads sequential keeps =>
      simp only [StoredBlock.transfer, form]
      exact ⟨rfl, rfl⟩

theorem reflects (now : Timestamp) : Reflects tables.blocks ⟨block, entry.sideband now⟩ := by
  have before := accepted.balanceBefore_eq coherent (entry.sideband now)
  unfold Reflects
  rw [before]
  cases accepted with
  | send form => simp only [form]; rfl
  | receive form => simp only [form]
  | opening form => simp only [form]; rfl
  | change form => simp only [form]
  | outgoing form absent signed continues spends =>
      simp only [form]
      exact ⟨rfl, rfl, iff_of_true rfl spends⟩
  | standing form absent signed continues unlinked keeps =>
      simp only [form]
      refine ⟨rfl, rfl, iff_of_false Bool.false_ne_true ?_⟩
      rw [keeps]
      exact Nat.lt_irrefl _
  | incoming form absent signed continues covered =>
      simp only [form]
      exact ⟨rfl, rfl, iff_of_false Bool.false_ne_true covered⟩
  | upgrade form absent signed continues unnamed agrees leads sequential keeps =>
      simp only [form]
      refine ⟨rfl, keeps, iff_of_false Bool.false_ne_true ?_⟩
      rw [keeps]
      exact Nat.lt_irrefl _

omit coherent in
theorem details_of_legacy (now : Timestamp) (legacy : block.kind.isLegacy) :
    (entry.sideband now).details = .plain := by
  cases accepted with
  | send | receive | opening | change => rfl
  | outgoing form => exact absurd legacy (Block.not_legacy_of_state form)
  | standing form => exact absurd legacy (Block.not_legacy_of_state form)
  | incoming form => exact absurd legacy (Block.not_legacy_of_state form)
  | upgrade form => exact absurd legacy (Block.not_legacy_of_state form)

theorem upgrades (now : Timestamp) (isEpoch : (entry.sideband now).details.isEpoch) :
    StoredBlock.transfer ⟨block, entry.sideband now⟩ = .neither ∧ (block.previous ≠ .zero →
      (epochBefore tables.blocks ⟨block, entry.sideband now⟩).isSequential
        (entry.sideband now).details.epoch) := by
  rw [accepted.epochBefore_eq coherent]
  have previous := accepted.previous_eq coherent
  cases accepted with
  | @upgrade existing content epoch form absent signed continues unnamed agrees leads sequential =>
      refine ⟨by simp [StoredBlock.transfer, form, Entry.sideband], fun later => ?_⟩
      cases existing with
      | none => exact absurd previous later
      | some record => exact sequential record rfl
  | _ => simp [Entry.sideband, legacySideband, BlockDetails.plain] at isEpoch

theorem stays (sound : constants.Sound) (now : Timestamp)
    (notEpoch : (entry.sideband now).details.isEpoch = false) :
    (entry.sideband now).details.epoch
      = (epochBefore tables.blocks ⟨block, entry.sideband now⟩).later
          (entry.sideband now).sourceEpoch := by
  rw [accepted.epochBefore_eq coherent]
  -- A legacy chain has not been upgraded.
  have legacy {account : Account} {record : AccountRecord}
      (follows : FollowsLegacy hint block tables account record) : record.epoch = .zero := by
    obtain ⟨-, head, found, isLegacy⟩ := follows.head coherent
    obtain ⟨other, recorded⟩ := coherent.recorded follows.recorded
    obtain rfl := Option.some.inj (found.symm.trans recorded.found)
    rw [recorded.epoch, coherent.plain_of_legacy sound found isLegacy]
    rfl
  cases accepted with
  | send _ follows => exact (congrArg (Epoch.later · .zero) (legacy follows)).symm
  | receive _ follows => exact (congrArg (Epoch.later · .zero) (legacy follows)).symm
  | change _ follows => exact (congrArg (Epoch.later · .zero) (legacy follows)).symm
  | opening => rfl
  | outgoing => exact (Epoch.later_zero _).symm
  | standing => exact (Epoch.later_zero _).symm
  | incoming => rfl
  | upgrade => simp [Entry.sideband] at notEpoch

omit coherent in
theorem waiting (now : Timestamp) (source : BlockHash)
    (receives : StoredBlock.transfer ⟨block, entry.sideband now⟩ = .receives source) :
    ∃ receivable, tables.receivables.get? ⟨(entry.sideband now).account, source⟩
      = some receivable := by
  cases accepted with
  | receive form follows contained last waits =>
      simp only [StoredBlock.transfer, form, Transfer.receives.injEq] at receives
      exact ⟨_, receives ▸ waits⟩
  | opening form absent signed contained unopened waits =>
      simp only [StoredBlock.transfer, form, Transfer.receives.injEq] at receives
      exact ⟨_, receives ▸ waits⟩
  | incoming form absent signed continues covered linked contained waits =>
      simp [StoredBlock.transfer, form, Entry.sideband] at receives
      exact ⟨_, receives ▸ waits⟩
  | send form => simp [StoredBlock.transfer, form] at receives
  | change form => simp [StoredBlock.transfer, form] at receives
  | outgoing form => simp [StoredBlock.transfer, form, Entry.sideband] at receives
  | standing form => simp [StoredBlock.transfer, form, Entry.sideband] at receives
  | upgrade form => simp [StoredBlock.transfer, form, Entry.sideband] at receives

/-- In a coherent ledger an accepted block may be added with its sideband. -/
theorem admissible (sound : constants.Sound) (room : entry.HasRoom) (now : Timestamp)
    (named : block.hash ≠ .zero) : tables.Admissible ⟨block, entry.sideband now⟩ where
  fresh := accepted.fresh
  named := named
  placed := accepted.placed coherent
  justified := {
    first := accepted.first coherent room now
    follows := accepted.follows coherent room now
    settles := accepted.settles coherent now
    reflects := accepted.reflects coherent now
    legacy := accepted.details_of_legacy now
    upgrades := accepted.upgrades coherent now
    stays := accepted.stays coherent sound now }
  waiting := accepted.waiting now

end Accepted

end Admissibility

end Ledger

end AccountChains
