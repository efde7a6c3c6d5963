import AccountChains.Proofs.Ledger.Commit
import AccountChains.Proofs.Ledger.Retract
import AccountChains.Ledger.Rollback

/-!
Contract: what one step of undoing does.

In a coherent ledger the head of a chain is either a send that has been received,
and then the head of the receiving chain has to go first, or it can be taken away.
What the program computes from the head, its sideband and the block before it then
takes away exactly this head.

Owns: the plan and the effect of taking a head back. Does not own: the order in
which heads are undone.
-/

namespace AccountChains

open BlockTable Tables

namespace Ledger

/-- What takes the head of a chain away. -/
def reversalOf (tables : Tables) (record : AccountRecord) (head : StoredBlock)
    (before : Option AccountRecord) : Reversal where
  hash := head.hash
  account := head.sideband.account
  removeReceivable := match head.transfer with
    | .sends destination => some ⟨destination, head.hash⟩
    | .receives _ | .neither => none
  addReceivable := match head.transfer with
    | .receives source => some (⟨head.sideband.account, source⟩, returned tables.blocks head source)
    | .sends _ | .neither => none
  record := before.getD .blank
  removeFrontier := if head.block.kind.isLegacy then some head.hash else none
  addFrontier :=
    if (tables.blocks.get? head.block.previous).any fun previous => previous.block.kind.isLegacy
    then some (head.block.previous, head.sideband.account) else none
  clearSuccessor :=
    if (tables.blocks.get? head.block.previous).isSome then some head.block.previous else none
  losesWeight := votes tables.blocks record
  regainsWeight := before.map (votes tables.blocks)

section Transfers

variable {constants : LedgerConstants} {tables : Tables} {head : StoredBlock}
  (coherent : tables.Coherent constants) (justified : Justified tables.blocks head)

include coherent justified

/-- Whether a state block spends is told by its balance as well as by its sideband. -/
theorem isSend_eq {content : StateContent} (form : head.block.content = .state content) :
    isSend tables head.block = .ok head.sideband.details.isSend := by
  have reflects := justified.reflects
  simp only [Reflects, form] at reflects
  obtain ⟨-, -, spends⟩ := reflects
  have previous : head.block.previous = content.previous := Block.previous_of_form form
  unfold isSend
  simp only [form, balance?, stored, Store.block?, Except.mapError, bind, Except.bind, pure,
    Except.pure]
  by_cases isFirst : content.previous = .zero
  · have keeps : head.sideband.details.isSend = false := by
      rw [← Bool.not_eq_true, spends, balanceBefore, previous, isFirst, coherent.zero_absent]
      exact Nat.not_lt_zero _
    rw [if_pos ((Identifier.isZero_iff _).mpr isFirst), keeps]
  · rw [if_neg (mt (Identifier.isZero_iff _).mp isFirst)]
    rw [balanceBefore, previous] at spends
    congr 1
    rw [Bool.eq_iff_iff, decide_eq_true_iff, spends]
    rfl

theorem blockDestination_eq {destination : Account} (sends : head.transfer = .sends destination) :
    transferRoles head = (true, (transferRoles head).2) ∧
      blockDestination tables head.block = .ok destination := by
  unfold StoredBlock.transfer at sends
  unfold transferRoles blockDestination
  cases form : head.block.content with
  | send content =>
      simp only [form, Transfer.sends.injEq] at sends
      exact ⟨rfl, congrArg Except.ok sends⟩
  | state content =>
      simp only [form] at sends
      simp only [isSend_eq coherent justified form, bind, Except.bind]
      split at sends
      · next spends =>
          simp only [spends, if_true]
          exact ⟨trivial, congrArg Except.ok (Transfer.sends.inj sends)⟩
      · split at sends <;> simp at sends
  | _ => simp [form] at sends

theorem blockSource_eq {source : BlockHash} (receives : head.transfer = .receives source) :
    transferRoles head = (false, true) ∧ blockSource tables head.block = .ok source := by
  unfold StoredBlock.transfer at receives
  unfold transferRoles blockSource
  cases form : head.block.content with
  | receive content =>
      simp only [form, Transfer.receives.injEq] at receives
      refine ⟨rfl, congrArg Except.ok ?_⟩
      simp [Block.source, form, Content.source, receives]
  | opening content =>
      simp only [form, Transfer.receives.injEq] at receives
      refine ⟨rfl, congrArg Except.ok ?_⟩
      simp [Block.source, form, Content.source, receives]
  | state content =>
      simp only [form] at receives
      simp only [isSend_eq coherent justified form, bind, Except.bind]
      split at receives
      · simp at receives
      · next keeps =>
          split at receives
          · next gains =>
              simp only [keeps, gains]
              exact ⟨by simp, congrArg Except.ok (Transfer.receives.inj receives)⟩
          · simp at receives
  | _ => simp [form] at receives

omit coherent justified in
theorem transferRoles_of_neither (neither : head.transfer = .neither) :
    transferRoles head = (false, false) := by
  unfold StoredBlock.transfer at neither
  unfold transferRoles
  cases form : head.block.content with
  | change content => rfl
  | state content =>
      simp only [form] at neither
      split at neither
      · simp at neither
      · next keeps =>
          split at neither
          · simp at neither
          · next stands => simp [keeps, stands]
  | _ => simp [form] at neither

end Transfers

theorem run_writeFor {σ α : Type} [Store σ] (value : Option α) (change : α → σ → σ) (store : σ) :
    (writeFor value change).run store
      = (.ok (), value.elim store fun found => change found store) := by
  cases value <;> rfl

section Apply

variable {constants : LedgerConstants} {tables : Tables} {head : StoredBlock}
  {record : AccountRecord} {before : Option AccountRecord}
  (coherent : tables.Coherent constants) (removable : Removable constants tables record head)
  (precedes : Precedes tables.blocks record head before)

theorem run_removeAccount (account : Account) :
    (updateAccount account .blank).run tables = (.ok (), Store.removeAccount account tables) := by
  unfold updateAccount
  rfl

include coherent removable

/-- The frontier of the head goes, if the head has one. -/
private theorem run_unfront {written : Tables} (frontiers : written.frontiers = tables.frontiers) :
    (writeFor (if head.block.kind.isLegacy then some head.hash else none)
      Store.removeFrontier).run written = (.ok (), Store.removeFrontier record.head written) := by
  have isHead : head.hash = record.head := coherent.hash_eq removable.found
  rw [run_writeFor, isHead]
  by_cases legacy : head.block.kind.isLegacy
  · rw [if_pos legacy]
    rfl
  · have unfronted : written.frontiers.get? record.head = none := by
      rw [frontiers]
      cases fronted : tables.frontiers.get? record.head with
      | none => rfl
      | some account =>
          obtain ⟨block, found, -, isLegacy, -⟩ := (coherent.fronted _ _).mp fronted
          obtain rfl := Option.some.inj (removable.found.symm.trans found)
          exact absurd isLegacy legacy
    rw [if_neg legacy]
    simp only [Option.elim_none, Store.removeFrontier, Table.erase_of_absent unfronted]

/-- The link from the block before the head goes, if there is such a block. -/
private theorem run_unlink {written : Tables}
    (successors : written.successors = tables.successors) :
    (writeFor (if (tables.blocks.get? head.block.previous).isSome then some head.block.previous
      else none) Store.removeSuccessor).run written
      = (.ok (), Store.removeSuccessor head.block.previous written) := by
  rw [run_writeFor]
  cases previousFound : tables.blocks.get? head.block.previous with
  | some previous => rfl
  | none =>
      have unlinked : written.successors.get? head.block.previous = none := by
        rw [successors]
        cases linked : tables.successors.get? head.block.previous with
        | none => rfl
        | some next =>
            -- The head is justified, so the block before it is there unless there is none.
            have later := ((coherent.linked _ _).mp linked).1
            obtain ⟨previous, found, -⟩ :=
              (coherent.removable_justified removable).follows later
            simp [previousFound] at found
      simp only [Option.isSome_none, Bool.false_eq_true, if_false, Option.elim_none,
        Store.removeSuccessor, Table.erase_of_absent unlinked]

include precedes in
theorem run_apply : (reversalOf tables record head before).apply.run tables
    = (.ok (), tables.retract record head before) := by
  have isHead : head.hash = record.head := coherent.hash_eq removable.found
  -- What waits to be received comes first; then the ledger is taken back table by table.
  have settled (next : Step Tables Unit) :
      Step.run (do
        writeFor (reversalOf tables record head before).removeReceivable Store.removeReceivable
        writeFor (reversalOf tables record head before).addReceivable
          fun entry => Store.putReceivable entry.1 entry.2
        next) tables
      = next.run { tables with
          receivables := (tables.retract record head before).receivables } := by
    unfold reversalOf Tables.retract
    cases transfer : head.transfer with
    | sends destination =>
        simp only [isHead]
        rfl
    | receives source => rfl
    | neither => rfl
  unfold Reversal.apply
  rw [settled, Step.run_bind, run_subtractWeight]
  simp only [reversalOf]
  cases precedes with
  | first isFirst =>
      have absent : tables.blocks.get? head.block.previous = none :=
        isFirst ▸ coherent.zero_absent
      simp only [Option.map_none, Option.getD_none, Step.run_bind, run_removeAccount,
        Step.run_write]
      rw [run_unfront coherent removable]
      swap
      · rfl
      simp only [run_writeFor (if _ then some (_, _) else none)]
      rw [run_unlink coherent removable]
      swap
      · simp only [absent]
        rfl
      simp only [absent, isHead, Tables.retract]
      rfl
  | @later previous naming previousFound named =>
      have later : (record.backTo head.block.previous naming previous).head ≠ .zero :=
        (coherent.keyed previousFound).2
      simp only [Option.map_some, Option.getD_some, Step.run_bind, run_addWeight]
      rw [run_updateAccount later]
      simp only [Step.run_write]
      rw [run_unfront coherent removable]
      swap
      · rfl
      simp only
      rw [run_writeFor]
      simp only
      rw [run_unlink coherent removable]
      swap
      · split <;> rfl
      simp only [isHead, Tables.retract]
      split <;> rfl

end Apply

/-! ## The plan -/

section Plan

variable {constants : LedgerConstants} {tables : Tables} {head : StoredBlock}
  {record : AccountRecord} (coherent : tables.Coherent constants)

include coherent

/-- What taking the head back means for what waits to be received, if nobody received it. -/
theorem transferUndo_of_removable (removable : Removable constants tables record head) :
    transferUndo tables head.sideband.account record head (balanceBefore tables.blocks head)
      = .ok (match head.transfer with
        | .sends destination => .remove ⟨destination, head.hash⟩
        | .receives source =>
          .restore ⟨head.sideband.account, source⟩ (returned tables.blocks head source)
        | .neither => .nothing) := by
  have isHead : head.hash = record.head := coherent.hash_eq removable.found
  have justified := coherent.removable_justified removable
  have balance := (coherent.removable_recorded removable).balance
  unfold transferUndo
  cases transfer : head.transfer with
  | sends destination =>
      obtain ⟨roles, isDestination⟩ := blockDestination_eq coherent justified transfer
      have waits := (coherent.waiting ⟨destination, record.head⟩ _).mpr
        ⟨head, removable.found, transfer, removable.unreceived, rfl⟩
      rw [roles]
      simp only [isDestination, stored, Store.hasReceivable, Store.receivable?, isHead, waits,
        if_true, bind, Except.bind, Except.map, Except.mapError, Option.isSome_some, pure,
        Except.pure]
  | receives source =>
      obtain ⟨roles, isSource⟩ := blockSource_eq coherent justified transfer
      rw [roles]
      simp only [isSource, account?, stored, Store.block?, Bool.false_eq_true, if_false, if_true,
        bind, Except.bind, Except.mapError, pure, Except.pure, balance]
      rfl
  | neither =>
      rw [transferRoles_of_neither transfer]
      rfl

variable (record) in
/-- A send that does not wait any more is blocked by the head of the chain that received it. -/
theorem transferUndo_of_received {destination : Account} {other : AccountRecord} (amount : Amount)
    (justified : Justified tables.blocks head) (sends : head.transfer = .sends destination)
    (received : tables.receivables.get? ⟨destination, head.hash⟩ = none)
    (owned : tables.accounts.get? destination = some other) :
    transferUndo tables head.sideband.account record head amount = .ok (.blocked other.head) := by
  obtain ⟨roles, isDestination⟩ := blockDestination_eq coherent justified sends
  unfold transferUndo
  rw [roles]
  simp only [isDestination, stored, Store.hasReceivable, Store.receivable?, received, latest?,
    Store.account?, owned, required, if_true, bind, Except.bind, Except.map, Except.mapError,
    Option.isSome_none, Bool.false_eq_true, if_false, Option.map_some, pure, Except.pure]

omit coherent in
theorem representativeOfBlock?_eq (tables : Tables) (record : AccountRecord) :
    representativeOfBlock? tables record.representativeBlock
      = .ok (representativeOf tables.blocks record) := rfl

omit coherent in
theorem requiredBlock_eq {hash : BlockHash} (found : tables.blocks.get? hash = some head) :
    requiredBlock tables hash = .ok head := by
  simp only [requiredBlock, stored, Store.block?, found, required, bind, Except.bind,
    Except.mapError]

/-- The record of the account before the head, with the representative it leads to. -/
theorem recordBefore_eq (removable : Removable constants tables record head)
    (later : head.block.previous ≠ .zero) (previous : StoredBlock) {naming : BlockHash}
    (walked : representativeBlock? tables head.block.previous = .ok (some naming)) :
    recordBefore tables record head.block.previous previous
      = .ok (record.backTo head.block.previous naming previous,
        ((representativeOf tables.blocks
          (record.backTo head.block.previous naming previous)).getD .zero)) := by
  have counted : record.blockCount ≠ 0 := by
    obtain ⟨before, -, follows⟩ := (coherent.removable_justified removable).follows later
    have oneHigher := follows.height
    rw [(coherent.removable_recorded removable).blockCount]
    intro isZero
    rw [isZero] at oneHigher
    simp at oneHigher
  unfold recordBefore
  simp only [walked, required, bind, Except.bind, pure, Except.pure, if_neg counted]
  rfl

theorem planUndo_of_removable (sound : constants.Sound)
    (removable : Removable constants tables record head) :
    ∃ before, Precedes tables.blocks record head before ∧
      planUndo tables head.sideband.account record head
        = .ok (.reverse (reversalOf tables record head before)) := by
  have transfer := transferUndo_of_removable coherent removable
  have justified := coherent.removable_justified removable
  have representative := representativeOfBlock?_eq tables record
  unfold balanceBefore at transfer
  by_cases isFirst : head.block.previous = .zero
  · refine ⟨none, .first isFirst, ?_⟩
    rw [isFirst, coherent.zero_absent] at transfer
    have absent : tables.blocks.get? head.block.previous = none := isFirst ▸ coherent.zero_absent
    unfold planUndo reversalOf
    simp only [bind, Except.bind, pure, Except.pure, if_pos ((Identifier.isZero_iff _).mpr isFirst)]
    simp only [Option.map_none, Option.getD_none] at transfer ⊢
    rw [transfer, representative, absent]
    cases form : head.transfer <;> rfl
  · obtain ⟨earlier, found, -⟩ := justified.follows isFirst
    obtain ⟨naming, named, walked⟩ := coherent.representativeBlock?_eq sound found
    refine ⟨_, .later found named, ?_⟩
    rw [found] at transfer
    have before := recordBefore_eq coherent removable isFirst earlier walked
    unfold planUndo reversalOf
    simp only [bind, Except.bind, pure, Except.pure, Functor.map, Except.map,
      if_neg (mt (Identifier.isZero_iff _).mp isFirst), requiredBlock_eq found]
    simp only [Option.map_some, Option.getD_some] at transfer ⊢
    rw [transfer, representative, before, found]
    cases form : head.transfer <;> rfl

variable (record) in
theorem planUndo_of_received {destination : Account} {other : AccountRecord}
    (justified : Justified tables.blocks head) (sends : head.transfer = .sends destination)
    (received : tables.receivables.get? ⟨destination, head.hash⟩ = none)
    (owned : tables.accounts.get? destination = some other) :
    planUndo tables head.sideband.account record head = .ok (.dependency other.head) := by
  have transfer (amount : Amount) :=
    transferUndo_of_received record coherent amount justified sends received owned
  unfold planUndo
  by_cases isFirst : head.block.previous = .zero
  · simp only [bind, Except.bind, pure, Except.pure, if_pos ((Identifier.isZero_iff _).mpr isFirst),
      transfer]
  · obtain ⟨earlier, found, -⟩ := justified.follows isFirst
    simp only [bind, Except.bind, pure, Except.pure, Functor.map, Except.map,
      if_neg (mt (Identifier.isZero_iff _).mp isFirst), requiredBlock_eq found, transfer]

end Plan

/-! ## One step of undoing -/

/-- What undoing finds when it looks for the next step for an account: a head that can be taken
away, or the head of another chain that builds on it. -/
inductive NextUndo (constants : LedgerConstants) (tables : Tables) (record : AccountRecord)
    (head : StoredBlock) : UndoStep → Prop where
  | reverse {before : Option AccountRecord}
      (removable : Removable constants tables record head)
      (precedes : Precedes tables.blocks record head before) :
      NextUndo constants tables record head (.reverse (reversalOf tables record head before))
  | dependency {dependency : BlockHash} {found : StoredBlock}
      (stored : tables.blocks.get? dependency = some found)
      (notGenesis : dependency ≠ constants.genesis.hash)
      (depends : Relation.TransGen (DependsOn constants.genesis.hash tables.blocks) dependency
        record.head) :
      NextUndo constants tables record head (.dependency dependency)

section NextStep

variable {constants : LedgerConstants} {tables : Tables} {hash : BlockHash} {stored : StoredBlock}
  (coherent : tables.Coherent constants) (sound : constants.Sound)

include coherent sound

/-- A block that was received is a send that does not wait any more, and the head of the receiving
chain builds on it. -/
theorem exists_receiver (found : tables.blocks.get? hash = some stored)
    (received : ¬ Unreceived constants.genesis.hash tables.blocks hash) :
    ∃ destination record last, stored.transfer = .sends destination ∧
      tables.receivables.get? ⟨destination, hash⟩ = none ∧
      tables.accounts.get? destination = some record ∧
      tables.blocks.get? record.head = some last ∧ record.head ≠ constants.genesis.hash ∧
      Relation.TransGen (DependsOn constants.genesis.hash tables.blocks) record.head hash := by
  unfold Unreceived at received
  push Not at received
  obtain ⟨receiver, block, receiverFound, receiverNotGenesis, receives⟩ := received
  have settles := (coherent.justified receiverFound receiverNotGenesis).settles
  simp only [Settles, receives] at settles
  obtain ⟨send, sendFound, sends, -⟩ := settles
  obtain rfl := Option.some.inj (found.symm.trans sendFound)
  obtain ⟨record, belongs⟩ := coherent.belongs receiverFound
  obtain ⟨last, recorded⟩ := coherent.recorded belongs.found
  have gone : tables.receivables.get? ⟨block.sideband.account, hash⟩ = none := by
    cases waits : tables.receivables.get? ⟨block.sideband.account, hash⟩ with
    | none => rfl
    | some receivable =>
        obtain ⟨-, -, -, unreceived, -⟩ := (coherent.waiting _ _).mp waits
        exact absurd receives (unreceived _ _ receiverFound receiverNotGenesis)
  refine ⟨block.sideband.account, record, last, sends, gone, belongs.found, recorded.found,
    coherent.head_ne_genesis sound receiverFound belongs receiverNotGenesis, ?_⟩
  exact .tail' (coherent.head_depends sound receiverFound belongs)
    ⟨block, receiverFound, .inr ⟨receiverNotGenesis, receives⟩⟩

theorem nextUndo_spec (found : tables.blocks.get? hash = some stored)
    (notGenesis : hash ≠ constants.genesis.hash) :
    ∃ record head step, tables.blocks.get? record.head = some head ∧
      head.sideband.account = stored.sideband.account ∧
      Relation.ReflTransGen (DependsOn constants.genesis.hash tables.blocks) record.head hash ∧
      nextUndo tables hash stored.sideband.account = .ok (record.head, step) ∧
      NextUndo constants tables record head step := by
  obtain ⟨record, belongs⟩ := coherent.belongs found
  obtain ⟨head, recorded⟩ := coherent.recorded belongs.found
  have depends := coherent.head_depends sound found belongs
  have headNotGenesis := coherent.head_ne_genesis sound found belongs notGenesis
  have owned : tables.accounts.get? head.sideband.account = some record :=
    recorded.account ▸ belongs.found
  have next (step : UndoStep)
      (planned : planUndo tables head.sideband.account record head = .ok step) :
      nextUndo tables hash stored.sideband.account = .ok (record.head, step) := by
    rw [recorded.account] at planned
    unfold nextUndo
    simp only [AccountChains.stored, Store.account?, belongs.found, required, Except.mapError, bind,
      Except.bind, requiredBlock_eq recorded.found, planned, pure, Except.pure]
  by_cases unreceived : Unreceived constants.genesis.hash tables.blocks record.head
  · have removable : Removable constants tables record head :=
      ⟨owned, recorded.found, headNotGenesis, unreceived⟩
    obtain ⟨before, precedes, planned⟩ := planUndo_of_removable coherent sound removable
    exact ⟨record, head, _, recorded.found, recorded.account, depends, next _ planned,
      .reverse removable precedes⟩
  · obtain ⟨destination, other, last, sends, gone, opened, lastFound, lastNotGenesis, isAbove⟩ :=
      exists_receiver coherent sound recorded.found unreceived
    have justified := coherent.justified recorded.found headNotGenesis
    have planned := planUndo_of_received record coherent justified sends
      (coherent.hash_eq recorded.found ▸ gone) opened
    exact ⟨record, head, _, recorded.found, recorded.account, depends, next _ planned,
      .dependency lastFound lastNotGenesis isAbove⟩

end NextStep

end Ledger

end AccountChains
