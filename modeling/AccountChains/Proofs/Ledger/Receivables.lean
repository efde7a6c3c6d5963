import AccountChains.Proofs.Ledger.Reachable

/-!
Contract: what waits to be received.

A receivable is there exactly for each stored send that the chain of its
destination has not received, and it says what the send took from the balance
before it. No send is received twice.

Owns: the receivables of every state that a ledger gets into. Does not own: the
invariant behind it.
-/

namespace AccountChains

open BlockTable Tables

namespace Ledger

/-- A stored send that no block of its destination received. The genesis block receives nothing. -/
structure UnreceivedSend (genesis : BlockHash) (blocks : BlockTable) (key : ReceivableKey)
    (send : StoredBlock) : Prop where
  found : blocks.get? key.hash = some send
  sends : send.transfer = .sends key.account
  unreceived : ∀ {hash stored}, blocks.get? hash = some stored → hash ≠ genesis →
    stored.sideband.account = key.account → stored.transfer ≠ .receives key.hash

/-- A receivable says who sent it, what the balance dropped by, and in which epoch. -/
structure Describes (blocks : BlockTable) (receivable : Receivable) (send : StoredBlock) :
    Prop where
  source : receivable.source = send.sideband.account
  amount : ∃ before, blocks.get? send.block.previous = some before ∧
    send.sideband.balance.toNat + receivable.amount.toNat = before.sideband.balance.toNat
  epoch : receivable.epoch = send.sideband.details.epoch

section Waiting

variable {constants : LedgerConstants} {tables : Tables} {hash : BlockHash} {send : StoredBlock}
  {destination : Account} (coherent : tables.Coherent constants)

include coherent

/-- The genesis block is an opening block, so it sends nothing. -/
theorem ne_genesis_of_sends (sound : constants.Sound)
    (found : tables.blocks.get? hash = some send) (sends : send.transfer = .sends destination) :
    hash ≠ constants.genesis.hash := by
  rintro rfl
  obtain ⟨now, genesisFound⟩ := coherent.genesis
  obtain rfl := Option.some.inj (genesisFound.symm.trans found)
  obtain ⟨content, opens, -⟩ := sound.opens
  simp [StoredBlock.transfer, opens] at sends

/-- A send comes after another block, and takes an amount from the balance. -/
theorem sent_exact (sound : constants.Sound) (found : tables.blocks.get? hash = some send)
    (sends : send.transfer = .sends destination) :
    ∃ before, tables.blocks.get? send.block.previous = some before ∧
      send.sideband.balance.toNat + (sentAmount tables.blocks send).toNat
        = before.sideband.balance.toNat := by
  have justified := coherent.justified found (ne_genesis_of_sends coherent sound found sends)
  have settles := justified.settles
  simp only [Settles, sends] at settles
  obtain ⟨later, covered, -⟩ := settles
  obtain ⟨before, beforeFound, -⟩ := justified.follows later
  have balance : balanceBefore tables.blocks send = before.sideband.balance := by
    simp [balanceBefore, beforeFound]
  rw [balance] at covered
  refine ⟨before, beforeFound, ?_⟩
  rw [sentAmount, balance, Amount.toNat_wrappingSub covered]
  exact Nat.add_sub_cancel' covered

/-- Only the destination receives a send. -/
theorem unreceived_of_destination (found : tables.blocks.get? hash = some send)
    (sends : send.transfer = .sends destination)
    (unreceived : ∀ {other stored}, tables.blocks.get? other = some stored →
      other ≠ constants.genesis.hash → stored.sideband.account = destination →
      stored.transfer ≠ .receives hash) :
    Unreceived constants.genesis.hash tables.blocks hash := by
  intro other stored otherFound notGenesis receives
  have settles := (coherent.justified otherFound notGenesis).settles
  simp only [Settles, receives] at settles
  obtain ⟨source, sourceFound, sent, -⟩ := settles
  obtain rfl := Option.some.inj (found.symm.trans sourceFound)
  have owner := Transfer.sends.inj (sends.symm.trans sent)
  exact unreceived otherFound notGenesis owner.symm receives

theorem waiting_iff (key : ReceivableKey) :
    (∃ receivable, tables.receivables.get? key = some receivable) ↔
      ∃ send, UnreceivedSend constants.genesis.hash tables.blocks key send := by
  constructor
  · rintro ⟨receivable, waits⟩
    obtain ⟨send, found, sends, unreceived, -⟩ := (coherent.waiting _ _).mp waits
    exact ⟨send, found, sends, fun otherFound notGenesis _ => unreceived _ _ otherFound notGenesis⟩
  · rintro ⟨send, found, sends, unreceived⟩
    exact ⟨_, (coherent.waiting _ _).mpr
      ⟨send, found, sends, unreceived_of_destination coherent found sends unreceived, rfl⟩⟩

theorem describes_of_waiting (sound : constants.Sound) {key : ReceivableKey}
    {receivable : Receivable} (waits : tables.receivables.get? key = some receivable)
    (found : tables.blocks.get? key.hash = some send) :
    Describes tables.blocks receivable send := by
  obtain ⟨other, otherFound, sends, -, rfl⟩ := (coherent.waiting _ _).mp waits
  obtain rfl := Option.some.inj (otherFound.symm.trans found)
  exact ⟨rfl, sent_exact coherent sound found sends, rfl⟩

end Waiting

/-- What waits to be received is exactly what was sent and not received, and each send is received
at most once. -/
theorem Reachable.receivables_exact {constants : LedgerConstants} {tables : Tables}
    (reachable : Reachable constants tables) (sound : constants.Sound) :
    (∀ key, (∃ receivable, tables.receivables.get? key = some receivable) ↔
      ∃ send, UnreceivedSend constants.genesis.hash tables.blocks key send) ∧
    (∀ {key receivable send}, tables.receivables.get? key = some receivable →
      tables.blocks.get? key.hash = some send → Describes tables.blocks receivable send) ∧
    ∀ {source hash other stored found}, tables.blocks.get? hash = some stored →
      tables.blocks.get? other = some found → hash ≠ constants.genesis.hash →
      other ≠ constants.genesis.hash → stored.transfer = .receives source →
      found.transfer = .receives source → hash = other := by
  have coherent := reachable.coherent sound
  refine ⟨waiting_iff coherent, fun waits found => ?_, coherent.once⟩
  exact describes_of_waiting coherent sound waits found

theorem devSent_receivables_exact :
    (∀ key, (∃ receivable, devSent.receivables.get? key = some receivable) ↔
      ∃ send, UnreceivedSend LedgerConstants.dev.genesis.hash devSent.blocks key send) ∧
    (∀ {key receivable send}, devSent.receivables.get? key = some receivable →
      devSent.blocks.get? key.hash = some send → Describes devSent.blocks receivable send) ∧
    ∀ {source hash other stored found}, devSent.blocks.get? hash = some stored →
      devSent.blocks.get? other = some found → hash ≠ LedgerConstants.dev.genesis.hash →
      other ≠ LedgerConstants.dev.genesis.hash → stored.transfer = .receives source →
      found.transfer = .receives source → hash = other :=
  Reachable.receivables_exact reachable_devSent dev_sound

end Ledger

end AccountChains
