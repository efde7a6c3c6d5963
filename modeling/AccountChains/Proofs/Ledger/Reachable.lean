import AccountChains.Proofs.Ledger.Unwind

/-!
Contract: the states that a ledger gets into.

A ledger starts with the genesis block alone. From there on, any block may be
offered to it with any hint at any time, and any stored block but the genesis
block may be undone. Every state on the way is coherent.

A call that adds to a count beyond its range does not return, so no state comes
after it. No block hashes to zero: the zero hash stands for "none".

Owns: `Reachable` and that it implies `Coherent`. Does not own: what follows from
coherence.
-/

namespace AccountChains

open BlockTable Tables

namespace Ledger

/-- What may be asked of a ledger. -/
inductive Call where
  | process (now : Timestamp) (hint : Verification) (block : Block)
  | rollback (hash : BlockHash)

/-- A call returns, and leaves a ledger behind. -/
inductive Leads (constants : LedgerConstants) : Tables → Call → Tables → Prop where
  | answered {tables written : Tables} {now : Timestamp} {hint : Verification} {block : Block}
      {receipt : Receipt} (named : block.hash ≠ .zero)
      (returned : (process constants now hint block).run tables = (.ok receipt, written)) :
      Leads constants tables (.process now hint block) written
  | failed {tables written : Tables} {now : Timestamp} {hint : Verification} {block : Block}
      {cause : LedgerError} (named : block.hash ≠ .zero)
      (returned : (process constants now hint block).run tables
        = (.error (.error cause), written)) :
      Leads constants tables (.process now hint block) written
  | undone {tables : Tables} {hash : BlockHash} {stored : StoredBlock}
      (found : tables.blocks.get? hash = some stored)
      (notGenesis : hash ≠ constants.genesis.hash) :
      Leads constants tables (.rollback hash) (rollback hash tables).store

/-- The ledger that starts on an empty store, whatever waits outside the chains. -/
def started (constants : LedgerConstants) (now : Timestamp)
    (parked : Table ParkedKey ParkedBlock) (version : Option UInt32) : Tables :=
  ((establish constants now).run { Tables.empty with parked, version }).2

/-- A ledger gets into a state by some calls, one after another. -/
inductive Reachable (constants : LedgerConstants) : Tables → Prop where
  | started (now : Timestamp) (parked : Table ParkedKey ParkedBlock) (version : Option UInt32) :
      Reachable constants (started constants now parked version)
  | after {tables next : Tables} {call : Call} (reached : Reachable constants tables)
      (leads : Leads constants tables call next) : Reachable constants next

/-! ## The first state -/

section Started

variable {constants : LedgerConstants} {hash : BlockHash} {stored : StoredBlock}
  (sound : constants.Sound) (now : Timestamp) (parked : Table ParkedKey ParkedBlock)
  (version : Option UInt32)

/-- The genesis block as it is stored. -/
def storedGenesis (constants : LedgerConstants) (now : Timestamp) : StoredBlock :=
  ⟨constants.genesis, legacySideband constants.genesisAccount 1 constants.genesisAmount now⟩

/-- The record of the genesis account at first. -/
def genesisRecord (constants : LedgerConstants) (now : Timestamp) : AccountRecord :=
  { head := constants.genesis.hash, representativeBlock := constants.genesis.hash
    openBlock := constants.genesis.hash, balance := constants.genesisAmount, modified := now
    blockCount := 1, epoch := .zero }

theorem started_eq : started constants now parked version =
    putWeight (constants.genesis.representative?.getD constants.genesisAccount)
      constants.genesisAmount
      { accounts := Table.empty.insert constants.genesisAccount (genesisRecord constants now)
        blocks := Table.empty.insert constants.genesis.hash (storedGenesis constants now)
        successors := .empty
        receivables := .empty
        frontiers := Table.empty.insert constants.genesis.hash constants.genesisAccount
        weights := .empty
        parked
        version } := by
  rfl

theorem found_started :
    (started constants now parked version).blocks.get? hash = some stored ↔
      hash = constants.genesis.hash ∧ stored = storedGenesis constants now :=
  Table.get?_single_iff

theorem recorded_started {account : Account} {record : AccountRecord} :
    (started constants now parked version).accounts.get? account = some record ↔
      account = constants.genesisAccount ∧ record = genesisRecord constants now :=
  Table.get?_single_iff

theorem fronted_started {account : Account} :
    (started constants now parked version).frontiers.get? hash = some account ↔
      hash = constants.genesis.hash ∧ account = constants.genesisAccount :=
  Table.get?_single_iff

theorem genesis_started : (started constants now parked version).blocks.get? constants.genesis.hash
    = some (storedGenesis constants now) :=
  (found_started now parked version).mpr ⟨rfl, rfl⟩

theorem representativeOf_started :
    representativeOf (started constants now parked version).blocks (genesisRecord constants now)
      = constants.genesis.representative? := by
  unfold representativeOf genesisRecord
  simp only [genesis_started]
  rfl

theorem delegated_started (representative : Account) :
    (started constants now parked version).delegated representative
      = if constants.genesis.representative? = some representative
        then constants.genesisAmount.toNat else 0 := by
  rw [← representativeOf_started now parked version]
  exact Table.total_single (delegation (started constants now parked version).blocks representative)
    constants.genesisAccount (genesisRecord constants now)

include sound

theorem weight_started (representative : Account) :
    (started constants now parked version).weight representative
      = .ofNat ((started constants now parked version).delegated representative) := by
  obtain ⟨named, names⟩ := Option.isSome_iff_exists.mp sound.names
  rw [delegated_started, started_eq, weight_putWeight, names, Option.getD_some]
  simp only [Option.some.injEq, eq_comm (a := named)]
  split
  · exact (Amount.ofNat_toNat _).symm
  · rfl

theorem recorded_genesis : Recorded (started constants now parked version)
    constants.genesisAccount (genesisRecord constants now) (storedGenesis constants now) where
  found := genesis_started now parked version
  account := rfl
  last := by simp [started_eq, putWeight]
  balance := rfl
  modified := rfl
  blockCount := rfl
  epoch := rfl
  opening := ⟨_, genesis_started now parked version, rfl, sound.previous_eq⟩
  representative := .here (genesis_started now parked version) sound.names

/-- The genesis block alone is a coherent ledger. -/
theorem coherent_started : (started constants now parked version).Coherent constants where
  keyed found := by
    obtain ⟨rfl, rfl⟩ := (found_started now parked version).mp found
    exact ⟨rfl, sound.named⟩
  genesis := ⟨now, genesis_started now parked version⟩
  justified found notGenesis :=
    absurd ((found_started now parked version).mp found).1 notGenesis
  once found _ notGenesis :=
    absurd ((found_started now parked version).mp found).1 notGenesis
  ranked := by
    -- The genesis block depends on nothing but the zero hash.
    refine ⟨fun hash => if hash = constants.genesis.hash then 1 else 0, ?_⟩
    rintro hash dependency ⟨stored, found, depends⟩
    obtain ⟨rfl, rfl⟩ := (found_started now parked version).mp found
    rcases depends with rfl | ⟨notGenesis, -⟩
    · have previous : (storedGenesis constants now).block.previous = .zero := sound.previous_eq
      simp [previous, sound.named.symm]
    · exact absurd rfl notGenesis
  linked previous hash := by
    refine iff_of_false (by simp [started_eq, putWeight]) ?_
    rintro ⟨notZero, stored, found, rfl⟩
    obtain ⟨-, rfl⟩ := (found_started now parked version).mp found
    exact notZero sound.previous_eq
  recorded found := by
    obtain ⟨rfl, rfl⟩ := (recorded_started now parked version).mp found
    exact ⟨_, recorded_genesis sound now parked version⟩
  belongs found := by
    obtain ⟨rfl, rfl⟩ := (found_started now parked version).mp found
    exact ⟨genesisRecord constants now, (recorded_started now parked version).mpr ⟨rfl, rfl⟩,
      le_rfl, fun _ => rfl, fun _ => rfl⟩
  fronted hash account := by
    rw [fronted_started]
    constructor
    · rintro ⟨rfl, rfl⟩
      exact ⟨_, genesis_started now parked version, rfl, sound.isLegacy,
        by simp [started_eq, putWeight]⟩
    · rintro ⟨stored, found, owner, -⟩
      obtain ⟨rfl, rfl⟩ := (found_started now parked version).mp found
      exact ⟨rfl, owner.symm⟩
  waiting key receivable := by
    refine iff_of_false (by simp [started_eq, putWeight]) ?_
    rintro ⟨send, found, sends, -⟩
    obtain ⟨-, rfl⟩ := (found_started now parked version).mp found
    obtain ⟨content, opens, -⟩ := sound.opens
    simp [StoredBlock.transfer, storedGenesis, opens] at sends
  weighed := weight_started sound now parked version
  tidy := by
    rw [started_eq]
    apply Tidy.putWeight
    intro representative
    simp
  conserved := by
    have held := Table.total_single (fun _ (record : AccountRecord) => record.balance.toNat)
      constants.genesisAccount (genesisRecord constants now)
    exact held

end Started

/-! ## One call -/

section Calls

variable {constants : LedgerConstants} {tables next : Tables} {now : Timestamp}
  {hint : Verification} {block : Block} {call : Call}

/-- What offering a block comes to. -/
inductive Processes (constants : LedgerConstants) (tables : Tables) (now : Timestamp)
    (hint : Verification) (block : Block) : Answer Receipt × Tables → Prop where
  | declined {receipt : Receipt} (isRefusal : receipt.verdict ≠ .progress) :
      Processes constants tables now hint block (.ok receipt, tables)
  | failed (fault : Fault) : Processes constants tables now hint block (.error fault, tables)
  | appended {entry : Entry} (accepted : Accepted constants hint block tables entry)
      (room : entry.HasRoom) :
      Processes constants tables now hint block
        (.ok entry.receipt, tables.append ⟨block, entry.sideband now⟩)
  | overflowed (written : Tables) :
      Processes constants tables now hint block (.error (.overflow .addition), written)

/-- A block is judged on what is there, and written only if it is accepted. -/
theorem run_process {σ : Type} [Store σ] (constants : LedgerConstants) (now : Timestamp)
    (hint : Verification) (block : Block) (store : σ) :
    (process constants now hint block).run store
      = match judge constants hint block store with
        | .error fault => (.error fault, store)
        | .ok (.refused receipt) => (.ok receipt, store)
        | .ok (.accepted entry) => (do
            entry.commit block now
            return entry.receipt : Step σ Receipt).run store := by
  unfold process
  rw [Step.run_bind, Step.run_read]
  cases judge constants hint block store with
  | error fault => rfl
  | ok judgement => cases judgement <;> rfl

theorem processes_of_run (coherent : tables.Coherent constants) (named : block.hash ≠ .zero)
    {outcome : Answer Receipt × Tables}
    (returned : (process constants now hint block).run tables = outcome) :
    Processes constants tables now hint block outcome := by
  subst returned
  rw [run_process]
  cases judged : judge constants hint block tables with
  | error fault => exact .failed fault
  | ok judgement =>
      cases judgement with
      | refused receipt => exact .declined (declines_judge _ judged)
      | accepted entry =>
          have accepted := accepted_of_judge judged
          simp only
          rw [Step.run_bind]
          by_cases room : entry.HasRoom
          · rw [run_commit coherent named now accepted room]
            exact .appended accepted room
          · have overflow := run_commit_overflow coherent now accepted room
            cases committed : (entry.commit block now).run tables with
            | mk answer written =>
                rw [committed] at overflow
                simp only at overflow
                rw [overflow]
                exact .overflowed written

/-- A call that returns leaves a coherent ledger behind. -/
theorem Leads.coherent (leads : Leads constants tables call next) (sound : constants.Sound)
    (coherent : tables.Coherent constants) : next.Coherent constants := by
  cases leads with
  | answered named returned =>
      cases processes_of_run coherent named returned with
      | declined => exact coherent
      | appended accepted room =>
          exact coherent.append sound (accepted.admissible coherent sound room _ named)
  | failed named returned =>
      cases processes_of_run coherent named returned with
      | failed => exact coherent
  | undone found notGenesis =>
      exact (rollback_unwinds coherent sound found notGenesis).removes.coherent_final sound coherent

/-- Every state that a ledger gets into is coherent. -/
theorem Reachable.coherent (reachable : Reachable constants tables) (sound : constants.Sound) :
    tables.Coherent constants := by
  induction reachable with
  | started now parked version => exact coherent_started sound now parked version
  | after _ leads inductionHypothesis => exact leads.coherent sound inductionHypothesis

/-- Every head that can be taken away can be undone alone. -/
theorem rollback_head {record : AccountRecord} {head : StoredBlock}
    {before : Option AccountRecord} (coherent : tables.Coherent constants)
    (sound : constants.Sound) (removable : Removable constants tables record head)
    (precedes : Precedes tables.blocks record head before) :
    rollback record.head tables = ⟨tables.retract record head before, [record.head], .ok ()⟩ :=
  rollback_restores sound coherent (coherent.retract sound removable precedes) removable.found
    removable.notGenesis (coherent.removable_loose removable) rfl rfl rfl

/-- The ledger gets into each state that undoing a block goes through. -/
theorem Reachable.removes {undone : List BlockHash} (reachable : Reachable constants tables)
    (removes : Removes constants tables undone next) (sound : constants.Sound) :
    Reachable constants next := by
  induction removes with
  | done => exact reachable
  | next removable precedes _ inductionHypothesis =>
      apply inductionHypothesis
      have undone := Leads.undone removable.found removable.notGenesis
      rw [rollback_head (reachable.coherent sound) sound removable precedes] at undone
      exact .after reachable undone

end Calls

/-! ## The development network -/

section Development

variable {tables : Tables}

/-- The genesis account sends all it has. -/
def devSend : Block :=
  { content := .send
      { previous := LedgerConstants.dev.genesis.hash, destination := ⟨7⟩, balance := .zero }
    signature := .zero
    work := 0 }

/-- The destination takes it. -/
def devOpening : Block :=
  { content := .opening { source := devSend.hash, representative := ⟨8⟩, account := ⟨7⟩ }
    signature := .zero
    work := 0 }

/-- The tables that a step leaves behind. -/
def leftBy (step : Step Tables Receipt) (tables : Tables) : Tables := (step.run tables).2

theorem run_eq_leftBy {step : Step Tables Receipt} {answer : Answer Receipt}
    (answers : (step.run tables).1 = answer) : step.run tables = (answer, leftBy step tables) :=
  Prod.ext answers rfl

/-- The ledger after the send. -/
def devSent : Tables :=
  leftBy (process .dev .zero .valid devSend) (started .dev .zero .empty none)

/-- The ledger after the send was received. -/
def devReceived : Tables := leftBy (process .dev .zero .valid devOpening) devSent

-- One evaluation for all, since each has to hash the same blocks.
private theorem dev_evaluated :
    (LedgerConstants.dev.genesis.hash ≠ .zero ∧ devSend.hash ≠ .zero ∧ devOpening.hash ≠ .zero) ∧
      (devSend.hash ≠ LedgerConstants.dev.genesis.hash ∧
        (devReceived.blocks.get? devSend.hash).isSome) ∧
      ((process .dev .zero .valid devSend).run (started .dev .zero .empty none)).1
        = .ok ⟨.progress, LedgerConstants.dev.genesisAccount, .greatest, ⟨7⟩, .valid, .greatest⟩ ∧
      ((process .dev .zero .valid devOpening).run devSent).1
        = .ok ⟨.progress, ⟨7⟩, .greatest, .zero, .valid, .zero⟩ := by
  decide +kernel

theorem dev_sound : LedgerConstants.dev.Sound where
  opens := ⟨_, rfl, rfl⟩
  named := dev_evaluated.1.1

theorem dev_named : devSend.hash ≠ .zero ∧ devOpening.hash ≠ .zero := dev_evaluated.1.2

theorem devSend_ne_genesis : devSend.hash ≠ LedgerConstants.dev.genesis.hash :=
  dev_evaluated.2.1.1

theorem devSend_stored : ∃ stored, devReceived.blocks.get? devSend.hash = some stored :=
  Option.isSome_iff_exists.mp dev_evaluated.2.1.2

theorem devSend_progresses :
    (process .dev .zero .valid devSend).run (started .dev .zero .empty none)
      = (.ok ⟨.progress, LedgerConstants.dev.genesisAccount, .greatest, ⟨7⟩, .valid, .greatest⟩,
        devSent) :=
  run_eq_leftBy dev_evaluated.2.2.1

theorem devOpening_progresses : (process .dev .zero .valid devOpening).run devSent
    = (.ok ⟨.progress, ⟨7⟩, .greatest, .zero, .valid, .zero⟩, devReceived) :=
  run_eq_leftBy dev_evaluated.2.2.2

theorem reachable_devSent : Reachable .dev devSent :=
  .after (.started .zero .empty none) (.answered dev_named.1 devSend_progresses)

theorem reachable_devReceived : Reachable .dev devReceived :=
  .after reachable_devSent (.answered dev_named.2 devOpening_progresses)

end Development

end Ledger

end AccountChains
