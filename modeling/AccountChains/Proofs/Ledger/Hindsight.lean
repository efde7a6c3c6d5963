import AccountChains.Proofs.Ledger.Growth
import AccountChains.Proofs.Ledger.Ownership
import AccountChains.Proofs.Ledger.Receivables

/-!
Contract: what is asked about a block later, against what was done with it.

Taking a block in reads the record of its account. A query reads the block before
it instead, as long as the block is stored. Both say the same about the part that
the block plays in a transfer, about what it moves, and about its owner: a block
that stays keeps the block before it, and nothing that is stored is written again.

Owns: the call that took a block in, and the answers about the block ever after.
Does not own: queries about accounts, and about blocks that are not stored.
-/

namespace AccountChains

open BlockTable Tables

/-- What is between two balances, whichever is more. -/
def Amount.between (before after : Amount) : Amount :=
  if before < after then after.wrappingSub before else before.wrappingSub after

namespace Amount

variable {before after moved : Amount}

theorem between_self (amount : Amount) : amount.between amount = zero := by
  unfold between
  rw [ite_self]
  exact (wrappingSub_eq_zero_iff amount amount).mpr rfl

theorem between_of_le (falls : after.toNat ≤ before.toNat) :
    before.between after = before.wrappingSub after :=
  if_neg (Nat.not_lt.mpr falls)

theorem between_of_gain (gains : after.toNat = before.toNat + moved.toNat) :
    before.between after = moved := by
  apply ext
  unfold between
  split
  · rw [toNat_wrappingSub (by omega), gains, Nat.add_sub_cancel_left]
  · next notMore =>
      rw [lt_iff_toNat_lt] at notMore
      rw [toNat_wrappingSub (by omega)]
      omega

end Amount

/-- At most one of sending, receiving and going to another epoch is said about a block. -/
def BlockDetails.IsExclusive (details : BlockDetails) : Prop :=
  details.isSend.toNat + details.isReceive.toNat + details.isEpoch.toNat ≤ 1

namespace Ledger

/-! ## Blocks that stay -/

/-- Calls lead from one ledger to another, and a block is stored after each of them. -/
inductive Keeps (constants : LedgerConstants) (stored : StoredBlock) : Tables → Tables → Prop where
  | here {tables : Tables} (found : tables.blocks.get? stored.hash = some stored) :
      Keeps constants stored tables tables
  | later {first tables next : Tables} {call : Call} (keeps : Keeps constants stored first tables)
      (leads : Leads constants tables call next)
      (found : next.blocks.get? stored.hash = some stored) : Keeps constants stored first next

/-- A block is offered to a ledger and answered. -/
structure Taking where
  now : Timestamp
  hint : Verification
  before : Tables
  receipt : Receipt
  after : Tables

namespace Taking

/-- The call took the block in, at a time when the ledger had got into some state, and the block
stays in the ledger up to another state. -/
structure TakesIn (taking : Taking) (constants : LedgerConstants) (stored : StoredBlock)
    (tables : Tables) : Prop where
  reached : Reachable constants taking.before
  named : stored.block.hash ≠ .zero
  returned : (process constants taking.now taking.hint stored.block).run taking.before
    = (.ok taking.receipt, taking.after)
  progresses : taking.receipt.verdict = .progress
  keeps : Keeps constants stored taking.after tables

/-- Something waits to be received after the call that did not wait before. -/
def Opens (taking : Taking) (key : ReceivableKey) : Prop :=
  taking.before.receivables.get? key = none ∧ (taking.after.receivables.get? key).isSome

end Taking

section Staying

variable {constants : LedgerConstants} {tables next first : Tables} {call : Call}
  {hash : BlockHash} {stored other : StoredBlock}

/-- A call leaves a block as it is or takes it away, and adds the block that it offers. -/
theorem Leads.found_or_offered (leads : Leads constants tables call next) (sound : constants.Sound)
    (coherent : tables.Coherent constants) (found : next.blocks.get? hash = some stored) :
    tables.blocks.get? hash = some stored ∨ ∃ now hint receipt, stored.block.hash ≠ .zero ∧
      (process constants now hint stored.block).run tables = (.ok receipt, next) ∧
      receipt.verdict = .progress ∧ tables.blocks.get? stored.hash = none := by
  cases leads with
  | @answered _ now hint block receipt named returned =>
      cases processes_of_run coherent named returned with
      | declined => exact .inl found
      | appended accepted room =>
          rcases found_append.mp found with ⟨-, rfl⟩ | ⟨-, here⟩
          · exact .inr ⟨now, hint, _, named, returned, Entry.progresses _, accepted.fresh⟩
          · exact .inl here
  | failed named returned =>
      cases processes_of_run coherent named returned with
      | failed => exact .inl found
  | undone present removable =>
      have removes := (rollback_unwinds coherent sound present removable).removes
      exact .inl (removes.found_iff.mp found).2

/-- What is stored before and after a call is the same. -/
theorem Leads.unchanged (leads : Leads constants tables call next) (sound : constants.Sound)
    (coherent : tables.Coherent constants) (found : tables.blocks.get? hash = some stored)
    (foundNext : next.blocks.get? hash = some other) : stored = other := by
  rcases leads.found_or_offered sound coherent foundNext with
    here | ⟨now, hint, receipt, named, returned, progresses, fresh⟩
  · exact Option.some.inj (found.symm.trans here)
  · have keyed := ((leads.coherent sound coherent).keyed foundNext).1
    rw [keyed, found] at fresh
    exact nomatch fresh

namespace Keeps

theorem found_first (keeps : Keeps constants stored first tables) :
    first.blocks.get? stored.hash = some stored := by
  induction keeps with
  | here found => exact found
  | later _ _ _ inductionHypothesis => exact inductionHypothesis

theorem found_last (keeps : Keeps constants stored first tables) :
    tables.blocks.get? stored.hash = some stored := by
  cases keeps with
  | here found => exact found
  | later _ _ found => exact found

theorem reachable (keeps : Keeps constants stored first tables)
    (reached : Reachable constants first) : Reachable constants tables := by
  induction keeps with
  | here => exact reached
  | later _ leads _ inductionHypothesis => exact .after inductionHypothesis leads

/-- A block that stays keeps the block before it. -/
theorem previous_eq (keeps : Keeps constants stored first tables) (sound : constants.Sound)
    (reached : Reachable constants first) :
    tables.blocks.get? stored.block.previous = first.blocks.get? stored.block.previous := by
  induction keeps with
  | here => rfl
  | @later tables next _ keeps leads found inductionHypothesis =>
      rw [← inductionHypothesis]
      have coherent := (keeps.reachable reached).coherent sound
      have coherentNext := leads.coherent sound coherent
      by_cases isFirst : stored.block.previous = .zero
      · rw [isFirst, coherent.zero_absent, coherentNext.zero_absent]
      · obtain ⟨before, foundBefore, -⟩ := coherent.later_block sound keeps.found_last isFirst
        obtain ⟨still, foundStill, -⟩ := coherentNext.later_block sound found isFirst
        rw [foundBefore, foundStill, leads.unchanged sound coherent foundBefore foundStill]

end Keeps

/-- Every stored block but the genesis block was taken in by some call, and stayed. -/
theorem Reachable.exists_taking (reachable : Reachable constants tables) (sound : constants.Sound)
    (found : tables.blocks.get? hash = some stored) (notGenesis : hash ≠ constants.genesis.hash) :
    ∃ taking : Taking, taking.TakesIn constants stored tables := by
  induction reachable with
  | started now parked version =>
      exact absurd ((found_started now parked version).mp found).1 notGenesis
  | @after tables next call reached leads inductionHypothesis =>
      have coherent := reached.coherent sound
      obtain rfl := ((leads.coherent sound coherent).keyed found).1
      rcases leads.found_or_offered sound coherent found with
        here | ⟨now, hint, receipt, named, returned, progresses, -⟩
      · obtain ⟨taking, taken⟩ := inductionHypothesis here
        exact ⟨taking, { taken with keeps := .later taken.keeps leads found }⟩
      · exact ⟨⟨now, hint, tables, receipt, next⟩, reached, named, returned, progresses,
          .here found⟩

end Staying

/-! ## What an entry says -/

section Entries

variable {constants : LedgerConstants} {tables : Tables} {hint : Verification} {block : Block}
  {entry : Entry}

namespace Accepted

variable (accepted : Accepted constants hint block tables entry) (now : Timestamp)

include accepted

theorem account_eq : entry.receipt.account = (entry.sideband now).account := by
  cases accepted <;> rfl

theorem isExclusive : (entry.sideband now).details.IsExclusive := by
  cases accepted <;> exact Nat.le_of_ble_eq_true rfl

/-- The amount of a receipt is what is between the balances before and after the block. -/
theorem amount_eq (coherent : tables.Coherent constants) :
    entry.receipt.amount = (balanceOf entry.before).between (entry.sideband now).balance := by
  symm
  cases accepted with
  | send form follows covered => exact Amount.between_of_le (Nat.le_of_not_lt covered)
  | receive form follows source last waits =>
      have bounded := coherent.balance_add_amount_le follows.recorded waits
      have fits := constants.genesisAmount.toNat_lt
      exact Amount.between_of_gain (Amount.toNat_wrappingAdd_of_lt (by omega))
  | opening => exact Amount.between_of_gain (Nat.zero_add _).symm
  | change => exact Amount.between_self _
  | outgoing form absent signed continues spends => exact Amount.between_of_le (Nat.le_of_lt spends)
  | standing form absent signed continues unlinked keeps =>
      exact (congrArg _ keeps).trans (Amount.between_self _)
  | incoming form absent signed continues covered linked source waits gains =>
      rw [Amount.lt_iff_toNat_lt] at covered
      have gained := congrArg Amount.toNat gains
      rw [Amount.toNat_wrappingSub (by omega)] at gained
      refine Amount.between_of_gain ?_
      simp only [Entry.before, Entry.sideband, Entry.receipt]
      omega
  | upgrade => exact Amount.between_self _

end Accepted

end Entries

/-! ## What is waiting after a block -/

section Opening

variable {constants : LedgerConstants} {tables : Tables} {stored : StoredBlock}
  {key : ReceivableKey}

/-- Exactly a send leaves something to be received, under its own hash. -/
theorem opens_append_iff (coherent : tables.Coherent constants)
    (fresh : tables.blocks.get? stored.hash = none) :
    tables.receivables.get? key = none ∧ ((tables.append stored).receivables.get? key).isSome ↔
      stored.transfer = .sends key.account ∧ key.hash = stored.hash := by
  have absent {destination : Account} :
      tables.receivables.get? ⟨destination, stored.hash⟩ = none := by
    refine Option.eq_none_iff_forall_ne_some.mpr fun receivable waits => ?_
    obtain ⟨send, found, -⟩ := (coherent.waiting _ _).mp waits
    exact nomatch fresh.symm.trans found
  obtain ⟨account, hash⟩ := key
  cases role : stored.transfer with
  | sends destination =>
      rw [receivables_append_of_sends role, Table.get?_insert]
      simp only [ReceivableKey.mk.injEq, Transfer.sends.injEq]
      constructor
      · rintro ⟨before, after⟩
        split at after
        · next same => exact ⟨same.1.symm, same.2⟩
        · simp [before] at after
      · rintro ⟨rfl, rfl⟩
        exact ⟨absent, by simp [StoredBlock.hash]⟩
  | receives source =>
      rw [receivables_append_of_receives role, Table.get?_erase]
      simp only [reduceCtorEq, false_and, iff_false]
      rintro ⟨before, after⟩
      simp [before] at after
  | neither =>
      rw [receivables_append_of_neither role]
      simp only [reduceCtorEq, false_and, iff_false]
      rintro ⟨before, after⟩
      simp [before] at after

end Opening

/-! ## Queries -/

/-- The owner of a block: the account that it names, or the owner of the block before it. -/
def IsOwned (tables : Tables) (block : Block) (owner : Account) : Prop :=
  match block.content.lineage with
  | .own account => owner = account
  | .after previous => account? tables previous = .ok (some owner)

/-- What a ledger answers about a stored block is what the call said and did that took it in. -/
structure Taking.Recalled (taking : Taking) (tables : Tables) (stored : StoredBlock) : Prop where
  sends : ∃ isSpent, isSend tables stored.block = .ok isSpent ∧
    (isSpent = true ↔ ∃ key, taking.Opens key)
  destination : ∀ key, taking.Opens key →
    key.hash = stored.hash ∧ blockDestination tables stored.block = .ok key.account
  nowhere : (¬ ∃ key, taking.Opens key) → blockDestination tables stored.block = .ok .zero
  amount : amount? tables stored.hash = .ok (some taking.receipt.amount)
  balance : ∃ record, taking.after.accounts.get? taking.receipt.account = some record ∧
    record.head = stored.hash ∧ balance? tables stored.hash = .ok (some record.balance)
  account : account? tables stored.hash = .ok (some taking.receipt.account)
  owner : IsOwned tables stored.block taking.receipt.account
  exclusive : stored.sideband.details.IsExclusive

section Queries

variable {constants : LedgerConstants} {tables : Tables} {hash : BlockHash} {stored : StoredBlock}

variable (tables hash) in
theorem balance?_eq : balance? tables hash
    = .ok ((tables.blocks.get? hash).map fun found => found.sideband.balance) := rfl

variable (tables hash) in
theorem account?_eq : account? tables hash
    = .ok ((tables.blocks.get? hash).map fun found => found.sideband.account) := rfl

/-- The amount of a block is what is between the balances before and after it, also if the block
is the first one. -/
theorem amount?_of_found (coherent : tables.Coherent constants) (sound : constants.Sound)
    (found : tables.blocks.get? hash = some stored) : amount? tables hash
      = .ok (some ((balanceBefore tables.blocks stored).between stored.sideband.balance)) := by
  unfold amount?
  simp only [AccountChains.stored, Store.block?, found, Except.mapError, bind, Except.bind, pure,
    Except.pure]
  by_cases isFirst : stored.block.previous = .zero
  · rw [if_pos ((Identifier.isZero_iff _).mpr isFirst)]
    have nothing : balanceBefore tables.blocks stored = .zero := by
      simp [balanceBefore, isFirst, coherent.zero_absent]
    rw [nothing, Amount.between_of_gain (Nat.zero_add _).symm]
  · rw [if_neg (mt (Identifier.isZero_iff _).mp isFirst)]
    obtain ⟨before, foundBefore, -⟩ := coherent.later_block sound found isFirst
    rw [balance?_eq]
    simp only [required, balanceBefore, foundBefore, Option.map_some, Option.getD_some,
      Amount.between]

/-- A block that sends nothing is no send, and goes nowhere. -/
theorem isSend_of_not_sends (coherent : tables.Coherent constants)
    (justified : Justified tables.blocks stored)
    (keeps : ∀ destination, stored.transfer ≠ .sends destination) :
    isSend tables stored.block = .ok false ∧
      blockDestination tables stored.block = .ok .zero := by
  unfold StoredBlock.transfer at keeps
  cases form : stored.block.content with
  | send content => simp [form] at keeps
  | state content =>
      simp only [form] at keeps
      cases spends : stored.sideband.details.isSend with
      | true => simp [spends] at keeps
      | false =>
          have answer := isSend_eq coherent justified form
          rw [spends] at answer
          refine ⟨answer, ?_⟩
          unfold blockDestination
          simp only [form, answer]
          rfl
  | receive | opening | change => exact ⟨by simp only [isSend, form]; rfl,
      by simp only [blockDestination, form]; rfl⟩

theorem isSend_of_sends {destination : Account} (coherent : tables.Coherent constants)
    (justified : Justified tables.blocks stored) (sends : stored.transfer = .sends destination) :
    isSend tables stored.block = .ok true := by
  unfold StoredBlock.transfer at sends
  cases form : stored.block.content with
  | send content => simp only [isSend, form]; rfl
  | state content =>
      simp only [form] at sends
      rw [isSend_eq coherent justified form]
      split at sends
      · next spends => exact congrArg Except.ok spends
      · split at sends <;> simp at sends
  | receive | opening | change => simp [form] at sends

/-- A block belongs to the account that takes it in. -/
theorem Accepted.owned {hint : Verification} {block : Block} {entry : Entry}
    (accepted : Accepted constants hint block tables entry) (coherent : tables.Coherent constants) :
    IsOwned tables block entry.receipt.account := by
  have fronted {account : Account} {record : AccountRecord}
      (follows : FollowsLegacy hint block tables account record) :
      account? tables block.previous = .ok (some account) := by
    obtain ⟨head, found, owner, -⟩ := (coherent.fronted _ _).mp follows.fronted
    rw [account?_eq, found, Option.map_some, owner]
  unfold IsOwned
  cases accepted with
  | send form follows | receive form follows | change form follows =>
      have owned := fronted follows
      rw [Block.previous_of_form form] at owned
      rw [form]
      exact owned
  | opening form | outgoing form | standing form | incoming form | upgrade form =>
      rw [form]
      rfl

theorem IsOwned.of_previous {other : Tables} {block : Block} {owner : Account}
    (owned : IsOwned tables block owner)
    (same : other.blocks.get? block.previous = tables.blocks.get? block.previous) :
    IsOwned other block owner := by
  have sameOwner : account? other block.previous = account? tables block.previous := by
    rw [account?_eq, account?_eq, same]
  unfold IsOwned at owned ⊢
  cases form : block.content with
  | send | receive | change =>
      rw [Block.previous_of_form form] at sameOwner
      rw [form] at owned
      exact sameOwner.trans owned
  | opening | state =>
      rw [form] at owned
      exact owned

end Queries

/-! ## Recalling -/

namespace Taking.TakesIn

variable {constants : LedgerConstants} {tables : Tables} {stored : StoredBlock} {taking : Taking}
  (taken : taking.TakesIn constants stored tables) (sound : constants.Sound)

include taken sound

/-- The block is stored with the sideband of the entry that it was accepted as. -/
theorem exists_entry : ∃ entry,
    Accepted constants taking.hint stored.block taking.before entry ∧ entry.HasRoom ∧
      taking.receipt = entry.receipt ∧ stored = ⟨stored.block, entry.sideband taking.now⟩ ∧
      taking.after = taking.before.append stored := by
  have coherent := taken.reached.coherent sound
  obtain ⟨entry, judged, room, isReceipt, isAfter⟩ :=
    entry_of_progress coherent taken.named taken.returned taken.progresses
  have isStored : stored = ⟨stored.block, entry.sideband taking.now⟩ := by
    have found := taken.keeps.found_first
    rw [isAfter] at found
    rcases found_append.mp found with ⟨-, same⟩ | ⟨other, -⟩
    · exact same
    · exact absurd rfl other
  exact ⟨entry, accepted_of_judge judged, room, isReceipt, isStored, isStored ▸ isAfter⟩

theorem owner_eq : taking.receipt.account = stored.sideband.account := by
  obtain ⟨entry, accepted, -, isReceipt, isStored, -⟩ := taken.exists_entry sound
  rw [isReceipt, congrArg StoredBlock.sideband isStored, accepted.account_eq]

omit sound in
theorem reached_after : Reachable constants taking.after :=
  .after taken.reached (.answered taken.named taken.returned)

/-- The block before is still what it was when the block was taken in. -/
theorem previous_kept : tables.blocks.get? stored.block.previous
    = taking.before.blocks.get? stored.block.previous := by
  obtain ⟨entry, accepted, room, -, isStored, isAfter⟩ := taken.exists_entry sound
  have admissible := accepted.admissible (taken.reached.coherent sound) sound room taking.now
    taken.named
  rw [taken.keeps.previous_eq sound taken.reached_after, isAfter]
  rw [← isStored] at admissible
  exact append_sameElsewhere _ _ _ admissible.previous_ne

theorem opens_iff {key : ReceivableKey} :
    taking.Opens key ↔ stored.transfer = .sends key.account ∧ key.hash = stored.hash := by
  obtain ⟨entry, accepted, -, -, -, isAfter⟩ := taken.exists_entry sound
  unfold Opens
  rw [isAfter]
  exact opens_append_iff (taken.reached.coherent sound) accepted.fresh

theorem recalled (notGenesis : stored.hash ≠ constants.genesis.hash) :
    taking.Recalled tables stored := by
  obtain ⟨entry, accepted, room, isReceipt, isStored, isAfter⟩ := taken.exists_entry sound
  have coherentBefore := taken.reached.coherent sound
  have coherent := (taken.keeps.reachable taken.reached_after).coherent sound
  have found := taken.keeps.found_last
  have justified := coherent.justified found notGenesis
  have isSideband : stored.sideband = entry.sideband taking.now :=
    congrArg StoredBlock.sideband isStored
  have isOwner := taken.owner_eq sound
  have isBalance : balanceBefore tables.blocks stored = balanceOf entry.before := by
    rw [← accepted.balanceBefore_eq coherentBefore stored.sideband]
    unfold balanceBefore
    rw [taken.previous_kept sound]
  exact
    { sends := by
        by_cases sends : ∃ destination, stored.transfer = .sends destination
        · obtain ⟨destination, sends⟩ := sends
          exact ⟨true, isSend_of_sends coherent justified sends, iff_of_true rfl
            ⟨⟨destination, stored.hash⟩, (taken.opens_iff sound).mpr ⟨sends, rfl⟩⟩⟩
        · refine ⟨false, (isSend_of_not_sends coherent justified fun destination isSent =>
            sends ⟨destination, isSent⟩).1, iff_of_false Bool.false_ne_true ?_⟩
          rintro ⟨key, opens⟩
          exact sends ⟨key.account, ((taken.opens_iff sound).mp opens).1⟩
      destination := fun key opens => by
        obtain ⟨sends, isHash⟩ := (taken.opens_iff sound).mp opens
        exact ⟨isHash, (blockDestination_eq coherent justified sends).2⟩
      nowhere := fun closed =>
        (isSend_of_not_sends coherent justified fun destination sends =>
          closed ⟨⟨destination, stored.hash⟩, (taken.opens_iff sound).mpr ⟨sends, rfl⟩⟩).2
      amount := by
        rw [amount?_of_found coherent sound found, isReceipt, accepted.amount_eq taking.now
          coherentBefore, isBalance, isSideband]
      balance := by
        refine ⟨AccountRecord.after (taking.before.accounts.get? stored.sideband.account) stored,
          ?_, rfl, ?_⟩
        · rw [isAfter, isOwner]
          exact Table.get?_insert_self _ _ _
        · rw [balance?_eq, found]
          rfl
      account := by rw [account?_eq, found, Option.map_some, isOwner]
      owner := by
        rw [isReceipt]
        exact (accepted.owned coherentBefore).of_previous (taken.previous_kept sound)
      exclusive := isSideband ▸ accepted.isExclusive taking.now }

end Taking.TakesIn

/-- Every stored block but the genesis block was taken in by some call, and whichever call it was,
the ledger still answers about the block what the call said and did. -/
theorem Reachable.queries_agree {constants : LedgerConstants} {tables : Tables} {hash : BlockHash}
    {stored : StoredBlock} (reachable : Reachable constants tables) (sound : constants.Sound)
    (found : tables.blocks.get? hash = some stored) (notGenesis : hash ≠ constants.genesis.hash) :
    (∃ taking : Taking, taking.TakesIn constants stored tables) ∧
      ∀ taking : Taking, taking.TakesIn constants stored tables →
        taking.Recalled tables stored := by
  have isHash := ((reachable.coherent sound).keyed found).1
  exact ⟨reachable.exists_taking sound found notGenesis,
    fun taking taken => taken.recalled sound (isHash ▸ notGenesis)⟩

/-- The send of the development network, in the ledger that has received it. -/
theorem devReceived_queries_agree : ∃ stored : StoredBlock,
    devReceived.blocks.get? devSend.hash = some stored ∧
      (∃ taking : Taking, taking.TakesIn .dev stored devReceived) ∧
        ∀ taking : Taking, taking.TakesIn .dev stored devReceived →
          taking.Recalled devReceived stored := by
  obtain ⟨stored, found⟩ := devSend_stored
  exact ⟨stored, found,
    Reachable.queries_agree reachable_devReceived dev_sound found devSend_ne_genesis⟩

end Ledger

end AccountChains
