import AccountChains.Proofs.Ledger.Reachable
import AccountChains.Proofs.Store.Keys

/-!
Contract: nothing is minted and nothing is lost.

What accounts hold and what waits to be received add up to the genesis amount, as
natural numbers. So no sum of amounts that the ledger forms leaves the range of
amounts, and no difference falls below zero: the wrapping operations are the
operations of natural numbers.

Owns: conservation of the supply in every state that a ledger gets into, and what
it says about the arithmetic of the ledger. Does not own: the invariant behind it.
-/

namespace AccountChains

open BlockTable Tables

/-- All that waits to be received by an account. -/
def Tables.waitingFor (tables : Tables) (account : Account) : Nat :=
  tables.receivables.total fun key receivable =>
    if key.account = account then receivable.amount.toNat else 0

namespace Ledger

/-- Whatever is asked of a ledger next, its arithmetic on balances does not wrap. -/
structure NeverWraps (constants : LedgerConstants) (tables : Tables) : Prop where
  sends : ∀ {hint block account record content},
    judge constants hint block tables = .ok (.accepted (.send account record content)) →
    (record.balance.wrappingSub content.balance).toNat + content.balance.toNat
      = record.balance.toNat
  receives : ∀ {hint block account record content receivable},
    judge constants hint block tables
      = .ok (.accepted (.receive account record content receivable)) →
    (record.balance.wrappingAdd receivable.amount).toNat
      = record.balance.toNat + receivable.amount.toNat
  /-- A state block that spends takes the amount from the balance, any other adds it. -/
  transfers : ∀ {hint block existing content details amount sourceEpoch},
    judge constants hint block tables
      = .ok (.accepted (.transfer existing content details amount sourceEpoch)) →
    if details.isSend then content.balance.toNat + amount.toNat = (balanceOf existing).toNat
    else (balanceOf existing).toNat + amount.toNat = content.balance.toNat
  /-- What is given back when a block is undone is what its account had gained by it. -/
  undoes : ∀ {hash stored record head reversal key receivable},
    tables.blocks.get? hash = some stored → hash ≠ constants.genesis.hash →
    tables.accounts.get? stored.sideband.account = some record →
    tables.blocks.get? record.head = some head →
    nextUndo tables hash stored.sideband.account = .ok (record.head, .reverse reversal) →
    reversal.addReceivable = some (key, receivable) →
    (balanceBefore tables.blocks head).toNat + receivable.amount.toNat = record.balance.toNat
  sums : ∀ account, ∃ sum, accountReceivable tables account = .ok sum ∧
    sum.toNat = tables.waitingFor account

section Arithmetic

variable {constants : LedgerConstants} {tables : Tables} (coherent : tables.Coherent constants)

include coherent

theorem waitingFor_le (account : Account) :
    tables.waitingFor account ≤ constants.genesisAmount.toNat := by
  have part : tables.waitingFor account
      ≤ tables.receivables.total fun _ receivable => receivable.amount.toNat :=
    Table.total_le_total fun key receivable _ => by split <;> omega
  have conserved := coherent.conserved
  unfold supply at conserved
  omega

theorem accountReceivable_eq (account : Account) :
    ∃ sum, accountReceivable tables account = .ok sum ∧
      sum.toNat = tables.waitingFor account := by
  have bounded := waitingFor_le coherent account
  have range := constants.genesisAmount.toNat_lt
  have listed := Table.sum_filter (fun _ receivable => receivable.amount.toNat) tables.receivables
    fun key => key.account == account
  simp only [beq_iff_eq] at listed
  refine ⟨_, by rw [accountReceivable, receivables_eq_filter]; rfl, ?_⟩
  rw [Amount.toNat_foldl_wrappingAdd]
  · rw [listed, Amount.toNat_zero, Nat.zero_add]
    rfl
  · rw [listed]
    unfold waitingFor at bounded
    rw [Amount.toNat_zero]
    omega

omit coherent in
/-- An accepted state block moves exactly the difference of the balances. -/
theorem transfer_exact {hint : Verification} {block : Block} {existing : Option AccountRecord}
    {content : StateContent} {details : BlockDetails} {amount : Amount} {sourceEpoch : Epoch}
    (accepted : Accepted constants hint block tables
      (.transfer existing content details amount sourceEpoch)) :
    if details.isSend then content.balance.toNat + amount.toNat = (balanceOf existing).toNat
    else (balanceOf existing).toNat + amount.toNat = content.balance.toNat := by
  cases accepted with
  | outgoing form absent signed continues spends =>
      rw [Amount.lt_iff_toNat_lt] at spends
      rw [if_pos rfl, Amount.toNat_wrappingSub (Nat.le_of_lt spends)]
      exact Nat.add_sub_cancel' (Nat.le_of_lt spends)
  | standing form absent signed continues unlinked keeps =>
      rw [if_neg Bool.false_ne_true, keeps]
      rfl
  | incoming form absent signed continues covered linked source waits gains =>
      rw [Amount.lt_iff_toNat_lt, Nat.not_lt] at covered
      rw [if_neg Bool.false_ne_true, ← gains, Amount.toNat_wrappingSub covered]
      exact Nat.add_sub_cancel' covered

/-- What a head received is in the balance of its account. -/
theorem restored_exact {record : AccountRecord} {head : StoredBlock}
    {before : Option AccountRecord} {key : ReceivableKey} {receivable : Receivable}
    (removable : Removable constants tables record head)
    (restored : (reversalOf tables record head before).addReceivable = some (key, receivable)) :
    (balanceBefore tables.blocks head).toNat + receivable.amount.toNat = record.balance.toNat := by
  have settles := (coherent.removable_justified removable).settles
  rw [(coherent.removable_recorded removable).balance]
  cases receives : head.transfer with
  | receives source =>
      simp only [reversalOf, receives, Option.some.injEq, Prod.mk.injEq] at restored
      obtain ⟨-, rfl⟩ := restored
      simp only [Settles, receives] at settles
      obtain ⟨send, -, -, balance, -⟩ := settles
      have covered : (balanceBefore tables.blocks head).toNat ≤ head.sideband.balance.toNat := by
        omega
      unfold returned
      rw [Amount.toNat_wrappingSub covered]
      exact Nat.add_sub_cancel' covered
  | sends destination => simp [reversalOf, receives] at restored
  | neither => simp [reversalOf, receives] at restored

theorem neverWraps (sound : constants.Sound) : NeverWraps constants tables where
  sends judged := by
    cases accepted_of_judge judged with
    | send form follows covered =>
        rw [Amount.lt_iff_toNat_lt, Nat.not_lt] at covered
        rw [Amount.toNat_wrappingSub covered]
        exact Nat.sub_add_cancel covered
  receives judged := by
    cases accepted_of_judge judged with
    | receive form follows source last waits =>
        have bounded := coherent.balance_add_amount_le follows.recorded waits
        have range := constants.genesisAmount.toNat_lt
        exact Amount.toNat_wrappingAdd_of_lt (by omega)
  transfers judged := transfer_exact (accepted_of_judge judged)
  undoes found notGenesis recorded headFound next restored := by
    obtain ⟨other, last, step, lastFound, owner, -, otherNext, spec⟩ :=
      nextUndo_spec coherent sound found notGenesis
    rw [otherNext] at next
    obtain ⟨sameHead, rfl⟩ := Prod.mk.inj (Except.ok.inj next)
    cases spec with
    | reverse removable precedes =>
        have owned := removable.owned
        rw [owner, recorded] at owned
        obtain rfl := Option.some.inj owned
        obtain rfl := Option.some.inj (headFound.symm.trans lastFound)
        exact restored_exact coherent removable restored
  sums account := accountReceivable_eq coherent account

end Arithmetic

/-- Account balances and what waits to be received always add up to the genesis amount, so the
arithmetic on balances never wraps, also between the removals when a block is undone. -/
theorem Reachable.supply_conserved {tables : Tables} (reachable : Reachable .dev tables) :
    tables.supply = LedgerConstants.dev.genesisAmount.toNat ∧ NeverWraps .dev tables ∧
      ∀ {undone middle}, Removes .dev tables undone middle → NeverWraps .dev middle := by
  have coherent := reachable.coherent dev_sound
  refine ⟨coherent.conserved, neverWraps coherent dev_sound, fun removes => ?_⟩
  exact neverWraps ((reachable.removes removes dev_sound).coherent dev_sound) dev_sound

theorem devSent_supply_conserved :
    devSent.supply = LedgerConstants.dev.genesisAmount.toNat ∧ NeverWraps .dev devSent ∧
      ∀ {undone middle}, Removes .dev devSent undone middle → NeverWraps .dev middle :=
  Reachable.supply_conserved reachable_devSent

end Ledger

end AccountChains
