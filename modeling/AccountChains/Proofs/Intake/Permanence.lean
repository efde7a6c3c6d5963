import AccountChains.Proofs.Intake.Charter
import AccountChains.Proofs.Intake.Replacement

/-!
Contract: how long the genesis block stays.

Nothing sets the genesis block apart when room is made for a forced block: whoever
forces a block with the first slot of the genesis account has the genesis block undone,
and the record of its account with it, before the forced block is even judged. There is
no other way to lose it. As long as no such block is forced, everything that the
threads do keeps every ledger coherent, and the genesis block belongs to each of them.

Owns: that the genesis block stays in runs that do not force a block with its slot, and
a run that loses it. Does not own: what is undone together with other blocks.
-/

namespace AccountChains

open BlockTable Ledger

/-- The genesis block is stored, and the record of its account has it as the first block. -/
structure Founded (constants : LedgerConstants) (tables : Tables) : Prop where
  stored : ∃ sideband, tables.blocks.get? constants.genesis.hash
    = some ⟨constants.genesis, sideband⟩
  opens : ∃ record, tables.accounts.get? constants.genesisAccount = some record ∧
    record.openBlock = constants.genesis.hash

namespace Bench

variable {setup : IntakeSetup} {constants : LedgerConstants} {tables cleared : Tables}
  {block : Block} {loser : BlockHash}

/-- What has the slot of a block is stored, and is another block. -/
theorem slot_of_competitor? (coherent : tables.Coherent constants)
    (competes : competitor? tables block = .ok (some loser)) :
    loser ≠ block.hash ∧ ∃ stored, tables.blocks.get? loser = some stored ∧
      slotOf stored.block.previous stored.sideband.account = block.qualifiedRoot := by
  unfold competitor? at competes
  cases leads : successor? tables block.qualifiedRoot with
  | error fault => simp [leads, bind, Except.bind] at competes
  | ok occupant =>
      have isLoser : occupant.filter (fun hash => hash ≠ block.hash) = some loser := by
        simpa [leads, bind, Except.bind, pure, Except.pure] using competes
      obtain ⟨rfl, different⟩ := Option.filter_eq_some_iff.mp isLoser
      exact ⟨by simpa using different, slot_of_successor? coherent leads⟩

/-- What has the slot of a block can be undone, unless the block competes with the genesis block. -/
theorem unwinds_of_competitor? (coherent : tables.Coherent constants) (sound : constants.Sound)
    (spared : block.qualifiedRoot = constants.genesis.qualifiedRoot →
      block.hash = constants.genesis.hash)
    (competes : competitor? tables block = .ok (some loser)) :
    Unwinds constants tables loser (rollback loser tables) := by
  obtain ⟨different, stored, found, sameSlot⟩ := slot_of_competitor? coherent competes
  refine rollback_unwinds coherent sound found ?_
  rintro rfl
  obtain ⟨now, isGenesis⟩ := coherent.genesis
  obtain rfl := Option.some.inj (isGenesis.symm.trans found)
  have isFirst : block.qualifiedRoot = constants.genesis.qualifiedRoot := by
    rw [← sameSlot, sound.qualifiedRoot_eq, ← sound.previous_eq]
    rfl
  exact different (spared isFirst).symm

/-- A block that does not compete with the genesis block is forced at the cost of other blocks
only, and leaves a coherent ledger behind. -/
theorem Clears.coherent {removed : Option BlockHash} (coherent : tables.Coherent constants)
    (sound : constants.Sound) (clears : Clears block tables removed cleared)
    (spared : block.qualifiedRoot = constants.genesis.qualifiedRoot →
      block.hash = constants.genesis.hash) : cleared.Coherent constants := by
  cases clears with
  | vacant => exact coherent
  | stuck competes | undone competes =>
      have removes := (unwinds_of_competitor? coherent sound spared competes).removes
      exact removes.coherent_final sound coherent

end Bench

/-- Blocks do not hash to zero, no other block is forced into the slot of the genesis block, and
ledgers are coherent. -/
def Charter.lasting (constants : LedgerConstants) (submissions : Submissions) : Charter where
  submissions := submissions
  forced block := block ∈ submissions.blocks ∧
    (block.qualifiedRoot = constants.genesis.qualifiedRoot → block.hash = constants.genesis.hash)
  ledger := Tables.Coherent constants

theorem Charter.upheld_lasting {setup : IntakeSetup} (sound : setup.constants.Sound)
    {submissions : Submissions} (named : ∀ block ∈ submissions.blocks, block.hash ≠ .zero) :
    (lasting setup.constants submissions).Upheld setup where
  demotes forced := forced.1
  reparks parked coherent := coherent.reparked parked
  takes handed coherent ran := by
    cases processes_of_run coherent (named _ handed) ran with
    | declined => exact coherent
    | appended accepted room =>
        exact coherent.append sound (accepted.admissible coherent sound room _ (named _ handed))
  fails handed coherent ran := by
    cases processes_of_run coherent (named _ handed) ran with
    | failed => exact coherent
  clears forced coherent clears := clears.coherent coherent sound forced.2

theorem Ledger.founded_of_coherent {constants : LedgerConstants} {tables : Tables}
    (sound : constants.Sound) (coherent : tables.Coherent constants) :
    Founded constants tables := by
  obtain ⟨now, found⟩ := coherent.genesis
  obtain ⟨record, belongs⟩ := coherent.belongs found
  exact ⟨⟨_, found⟩, record, belongs.found, belongs.first sound.previous_eq⟩

namespace Processor

variable {setup : IntakeSetup} {actions : List Action}

/-- Whatever the threads do and in whichever order, the genesis block stays stored and stays the
first block of its account, unless another block with its slot is forced. -/
theorem genesis_stays (sound : setup.constants.Sound) (now : Timestamp)
    (version : Option UInt32) {parked : Table ParkedKey ParkedBlock}
    (parkedNamed : ∀ key waiting, parked.get? key = some waiting → waiting.block.hash ≠ .zero)
    (named : ∀ action ∈ actions, ∀ block ∈ action.blocks, block.hash ≠ .zero)
    (spared : ∀ block, .force block ∈ actions →
      block.qualifiedRoot = setup.constants.genesis.qualifiedRoot →
        block.hash = setup.constants.genesis.hash) :
    Founded setup.constants ((Processor.new setup.settings
      (started setup.constants now parked version)).run setup actions).store := by
  let submissions : Submissions :=
    ⟨parked.entries.map (fun entry => entry.2.block) ++ actions.flatMap Action.blocks, []⟩
  have allNamed : ∀ block ∈ submissions.blocks, block.hash ≠ .zero := by
    intro block member
    rcases List.mem_append.mp member with isParked | handed
    · obtain ⟨⟨key, waiting⟩, isEntry, rfl⟩ := List.mem_map.mp isParked
      exact parkedNamed key waiting ((Table.mem_entries_iff _ _ _).mp isEntry)
    · obtain ⟨action, done, isHanded⟩ := List.mem_flatMap.mp handed
      exact named action done block isHanded
  have handed (action : Action) (done : action ∈ actions) (block : Block)
      (isHanded : block ∈ action.blocks) : block ∈ submissions.blocks :=
    List.mem_append_right _ (List.mem_flatMap.mpr ⟨action, done, isHanded⟩)
  have admits : (Charter.lasting setup.constants submissions).Admits
      (started setup.constants now parked version) :=
    ⟨coherent_started sound now parked version, fun {key waiting} found =>
      List.mem_append_left _ (List.mem_map.mpr
        ⟨(key, waiting), (Table.mem_entries_iff _ _ _).mpr found, rfl⟩)⟩
  have obeys := Obeys.run (Charter.upheld_lasting sound allNamed) handed
    (fun block forces => ⟨handed _ forces block List.mem_cons_self, spared block forces⟩)
    (obeys_new admits setup.settings)
  exact founded_of_coherent sound obeys.store.ledger

section Development

open LedgerConstants

/-- A block for the first slot of the genesis account that nobody has signed. -/
def devUsurper : Block where
  content := .state
    { account := dev.genesisAccount, previous := .zero, representative := dev.genesisAccount
      balance := .zero, link := .zero }
  signature := ⟨.allOnes 512⟩
  work := 0

/-- The usurper is forced, and a batch is committed. -/
def devUsurping : List Action :=
  .start :: .force devUsurper :: List.replicate 8 (.advance ⟨.zero, 0⟩)

private theorem devUsurping_evaluated :
    (devFresh.run devSetup devUsurping).store.blocks.contains dev.genesis.hash = false := by
  decide +kernel

/-- An unsigned block is enough to drive the genesis block out. -/
theorem devUsurping_unfounded : ¬ ∀ actions : List Action,
    Founded dev (devFresh.run devSetup actions).store := by
  intro founded
  obtain ⟨sideband, found⟩ := (founded devUsurping).stored
  have contained := (Table.contains_eq_true_iff _ _).mpr ⟨_, found⟩
  rw [devUsurping_evaluated] at contained
  exact nomatch contained

/-- A send of the genesis account may be forced, and the genesis block stays. -/
theorem devSend_forced_genesis_stays : Founded devSetup.constants
    ((Processor.new devSetup.settings (started devSetup.constants .zero .empty none)).run devSetup
      (.start :: .force devSend :: List.replicate 8 (.advance ⟨.zero, 0⟩))).store := by
  have notFirst : devSend.qualifiedRoot ≠ dev.genesis.qualifiedRoot := by
    intro same
    have previous : devSend.previous = dev.genesis.previous := congrArg QualifiedRoot.previous same
    rw [dev_sound.previous_eq] at previous
    exact dev_sound.named previous
  refine genesis_stays dev_sound .zero none (by simp [Table.get?, Table.empty, Entries.find?])
    ?_ ?_
  · simp [Action.blocks, dev_named.1]
  · simp only [List.mem_cons, List.mem_replicate, reduceCtorEq, Action.force.injEq, and_false,
      or_false, false_or]
    rintro block rfl same
    exact absurd same notFirst

end Development

end Processor

end AccountChains
