import AccountChains.Proofs.Ledger.Admission

/-!
Contract: what committing writes.

Each kind of entry is written in its own order and with its own steps. In a
coherent ledger all of them come to the same: the block is added with its
sideband. If the account cannot count one more block, the commit ends with an
overflow.

Owns: the effect of the steps of a commit, and `run_commit`. Does not own: what
the added block does to the ledger.
-/

namespace AccountChains

open BlockTable Tables

namespace Ledger

/-- Store a block with its sideband, and link it from the block before it. -/
def linkBlock (block : Block) (sideband : Sideband) (tables : Tables) : Tables :=
  { tables with
    blocks := tables.blocks.insert block.hash ⟨block, sideband⟩
    successors :=
      if block.previous.isZero then tables.successors
      else tables.successors.insert block.previous block.hash }

section Steps

variable {tables : Tables} {record : AccountRecord} {representative : Account}

theorem run_addWeight (representative : Account) (amount : Amount) :
    (addWeight representative amount).run tables
      = (.ok (), tables.enlarge representative amount) := rfl

theorem run_subtractWeight (representative : Account) (amount : Amount) :
    (subtractWeight representative amount).run tables
      = (.ok (), tables.lessen representative amount) := rfl

theorem run_currentRepresentative (representative : Account)
    (leads : representativeOf tables.blocks record = some representative) :
    (currentRepresentative record).run tables = (.ok representative, tables) := by
  unfold currentRepresentative representativeOfBlock?
  simp only [Step.run_read, stored, Store.block?, Except.mapError, bind, Except.bind, pure,
    Except.pure]
  unfold representativeOf at leads
  rw [leads]
  rfl

theorem run_nextHeight (room : record.blockCount.toNat + 1 < UInt64.size) :
    (nextHeight record).run tables = (.ok (record.blockCount + 1), tables) := by
  unfold nextHeight Step.ofAnswer Step.run
  rw [if_pos room]

theorem run_nextHeight_overflow (record : AccountRecord)
    (full : ¬ record.blockCount.toNat + 1 < UInt64.size) :
    (nextHeight record).run tables = (.error (.overflow .addition), tables) := by
  unfold nextHeight Step.ofAnswer Step.run
  rw [if_neg full]

theorem run_storeBlock (block : Block) (sideband : Sideband) :
    (storeBlock block sideband).run tables = (.ok (), linkBlock block sideband tables) := by
  unfold storeBlock linkBlock
  cases isFirst : block.previous.isZero <;> rfl

theorem run_updateAccount {account : Account} (named : record.head ≠ .zero) :
    (updateAccount account record).run tables
      = (.ok (), Store.putAccount account record tables) := by
  unfold updateAccount
  rw [if_neg (mt (Identifier.isZero_iff _).mp named)]
  rfl

theorem run_moveFrontier (block : Block) (account : Account) :
    (moveFrontier block account).run tables = (.ok (),
      Store.putFrontier block.hash account (Store.removeFrontier block.previous tables)) := rfl

/-- A frontier is dropped where there is one. -/
theorem run_dropFrontier (zeroAbsent : tables.frontiers.get? .zero = none) :
    (dropFrontier record).run tables = (.ok (), Store.removeFrontier record.head tables) := by
  have unchanged {hash : BlockHash} (absent : tables.frontiers.get? hash = none) :
      tables = Store.removeFrontier hash tables := by
    simp only [Store.removeFrontier, Table.erase_of_absent absent]
  unfold dropFrontier
  by_cases isBlank : record.head = .zero
  · rw [isBlank, ← unchanged zeroAbsent]
    simp only [(Identifier.isZero_iff _).mpr, Bool.not_true, Bool.false_eq_true, if_false,
      Step.run_pure]
  · have later : record.head.isZero = false := (Identifier.isZero_eq_false_iff _).mpr isBlank
    simp only [later, Bool.not_false, if_true, Step.run_bind, Step.run_read, stored,
      Store.frontier?, Except.mapError]
    cases fronted : tables.frontiers.get? record.head with
    | none =>
        rw [← unchanged fronted]
        rfl
    | some owner => rfl

end Steps

/-! ## The tables of an extended ledger -/

section Appended

variable {tables : Tables} {block : Block} {sideband : Sideband} {record : AccountRecord}
  {representative : Account}

theorem after_of_names {before : Option AccountRecord}
    (names : block.representative? = some representative) :
    AccountRecord.after before ⟨block, sideband⟩ =
      { head := block.hash, representativeBlock := block.hash
        openBlock := (before.map AccountRecord.openBlock).getD block.hash
        balance := sideband.balance, modified := sideband.timestamp
        blockCount := sideband.height, epoch := sideband.details.epoch } := by
  simp [AccountRecord.after, names, StoredBlock.hash]

theorem after_of_silent (silent : block.representative? = none) :
    AccountRecord.after (some record) ⟨block, sideband⟩ =
      { record with
        head := block.hash, balance := sideband.balance, modified := sideband.timestamp
        blockCount := sideband.height, epoch := sideband.details.epoch } := by
  simp [AccountRecord.after, silent, StoredBlock.hash]

/-- A new block does not change whom a record leads to. -/
theorem leads_insert {blocks : BlockTable} (fresh : blocks.get? block.hash = none)
    (leads : representativeOf blocks record = some representative) :
    representativeOf (blocks.insert block.hash ⟨block, sideband⟩) record
      = some representative := by
  have notNew : record.representativeBlock ≠ block.hash := by
    intro same
    simp [representativeOf, same, fresh] at leads
  rw [(sameElsewhere_insert blocks block.hash _).representativeOf_eq notNew, leads]

theorem votes_after_of_names {before : Option AccountRecord}
    (names : block.representative? = some representative) :
    votes (tables.append ⟨block, sideband⟩).blocks (.after before ⟨block, sideband⟩)
      = (representative, sideband.balance) := by
  have found : (tables.append ⟨block, sideband⟩).blocks.get? block.hash
      = some ⟨block, sideband⟩ := found_append.mpr (.inl ⟨rfl, rfl⟩)
  rw [after_of_names names]
  apply votes_of_leads
  simp only [representativeOf, found]
  exact names

theorem votes_after_of_silent (fresh : tables.blocks.get? block.hash = none)
    (silent : block.representative? = none)
    (leads : representativeOf tables.blocks record = some representative) :
    votes (tables.append ⟨block, sideband⟩).blocks (.after (some record) ⟨block, sideband⟩)
      = (representative, sideband.balance) := by
  rw [after_of_silent silent]
  exact votes_of_leads (leads_insert fresh leads)

theorem weights_append {before : Option AccountRecord}
    (recorded : tables.accounts.get? sideband.account = before) :
    (tables.append ⟨block, sideband⟩).weights = (tables.reweigh (before.map (votes tables.blocks))
      (some (votes (tables.append ⟨block, sideband⟩).blocks
        (.after before ⟨block, sideband⟩)))).weights := by
  subst recorded
  rfl

theorem receivables_append_of_sends {destination : Account}
    (sends : StoredBlock.transfer ⟨block, sideband⟩ = .sends destination) :
    (tables.append ⟨block, sideband⟩).receivables
      = tables.receivables.insert ⟨destination, block.hash⟩
          ⟨sideband.account, sentAmount tables.blocks ⟨block, sideband⟩,
            sideband.details.epoch⟩ := by
  unfold append
  rw [sends]
  rfl

theorem receivables_append_of_receives {source : BlockHash}
    (receives : StoredBlock.transfer ⟨block, sideband⟩ = .receives source) :
    (tables.append ⟨block, sideband⟩).receivables
      = tables.receivables.erase ⟨sideband.account, source⟩ := by
  unfold append
  rw [receives]

theorem receivables_append_of_neither
    (neither : StoredBlock.transfer ⟨block, sideband⟩ = .neither) :
    (tables.append ⟨block, sideband⟩).receivables = tables.receivables := by
  unfold append
  rw [neither]

theorem frontiers_append_of_legacy (legacy : block.kind.isLegacy) :
    (tables.append ⟨block, sideband⟩).frontiers
      = (tables.frontiers.erase block.previous).insert block.hash sideband.account :=
  if_pos legacy

theorem frontiers_append_of_state {content : StateContent} (form : block.content = .state content) :
    (tables.append ⟨block, sideband⟩).frontiers = tables.frontiers.erase block.previous :=
  if_neg (Block.not_legacy_of_state form)

/-- Tables that agree with an extended ledger in every table are the extended ledger. -/
theorem eq_append {written : Tables}
    (accounts : written.accounts = tables.accounts.insert sideband.account
      (.after (tables.accounts.get? sideband.account) ⟨block, sideband⟩))
    (linked : (written.blocks, written.successors)
      = ((linkBlock block sideband tables).blocks, (linkBlock block sideband tables).successors))
    (receivables : written.receivables = (tables.append ⟨block, sideband⟩).receivables)
    (frontiers : written.frontiers = (tables.append ⟨block, sideband⟩).frontiers)
    (weights : written.weights = (tables.append ⟨block, sideband⟩).weights)
    (outside : (written.parked, written.version) = (tables.parked, tables.version)) :
    written = tables.append ⟨block, sideband⟩ := by
  cases written
  simp only [Prod.mk.injEq] at accounts linked receivables frontiers weights outside
  obtain ⟨rfl, rfl⟩ := linked
  obtain ⟨rfl, rfl⟩ := outside
  subst accounts receivables frontiers weights
  rfl

end Appended

/-! ## Commits -/

section Commits

variable {constants : LedgerConstants} {hint : Verification} {block : Block} {tables : Tables}
  (coherent : tables.Coherent constants) (named : block.hash ≠ .zero) (now : Timestamp)

include coherent named

theorem run_commitSend {account : Account} {record : AccountRecord} {content : SendContent}
    (accepted : Accepted constants hint block tables (.send account record content))
    (room : record.blockCount.toNat + 1 < UInt64.size) :
    (commitSend block now account record content).run tables = (.ok (),
      tables.append ⟨block, Entry.sideband now (.send account record content)⟩) := by
  have isRecorded := accepted.recorded now
  have fresh := accepted.fresh
  have before := accepted.balanceBefore_eq coherent
    (Entry.sideband now (.send account record content))
  obtain ⟨head, recorded⟩ := accepted.head_recorded coherent now rfl
  obtain ⟨representative, leads⟩ := recorded.leads
  cases accepted with | send form =>
  have silent : block.representative? = none := by
    simp [Block.representative?, form, Content.representative?]
  have legacy : block.kind.isLegacy := congrArg BlockKind.isLegacy (Block.kind_of_form form)
  unfold commitSend
  simp only [Step.run_bind, run_currentRepresentative _ leads, run_subtractWeight,
    run_nextHeight room, run_storeBlock]
  rw [run_updateAccount named]
  simp only [Step.run_write, run_moveFrontier]
  congr 1
  apply eq_append
  · rw [isRecorded, Entry.before, after_of_silent silent]
    rfl
  · rfl
  · rw [receivables_append_of_sends, sentAmount, before]
    · rfl
    · simp [StoredBlock.transfer, form]
  · rw [frontiers_append_of_legacy legacy]
    rfl
  · rw [weights_append isRecorded, Entry.before, Option.map_some, votes_of_leads leads,
      votes_after_of_silent fresh silent leads]
    exact (reweigh_rest coherent.tidy _ _).symm
  · rfl

theorem run_commitReceive {account : Account} {record : AccountRecord} {content : ReceiveContent}
    {receivable : Receivable}
    (accepted : Accepted constants hint block tables (.receive account record content receivable))
    (room : record.blockCount.toNat + 1 < UInt64.size) :
    (commitReceive block now account record content receivable).run tables = (.ok (),
      tables.append ⟨block, Entry.sideband now (.receive account record content receivable)⟩) := by
  have isRecorded := accepted.recorded now
  have fresh := accepted.fresh
  obtain ⟨head, recorded⟩ := accepted.head_recorded coherent now rfl
  obtain ⟨representative, leads⟩ := recorded.leads
  cases accepted with | receive form =>
  have silent : block.representative? = none := by
    simp [Block.representative?, form, Content.representative?]
  have legacy : block.kind.isLegacy := congrArg BlockKind.isLegacy (Block.kind_of_form form)
  unfold commitReceive
  simp only [Step.run_bind, Step.run_write, run_nextHeight room, run_storeBlock]
  rw [run_updateAccount named]
  simp only
  rw [run_currentRepresentative representative]
  swap
  · exact leads_insert fresh leads
  simp only [run_addWeight, run_moveFrontier]
  congr 1
  apply eq_append
  · rw [isRecorded, Entry.before, after_of_silent silent]
    rfl
  · rfl
  · rw [receivables_append_of_receives]
    · rfl
    · simp [StoredBlock.transfer, form]
  · rw [frontiers_append_of_legacy legacy]
    rfl
  · rw [weights_append isRecorded, Entry.before, Option.map_some, votes_of_leads leads,
      votes_after_of_silent fresh silent leads]
    exact (reweigh_more coherent.tidy _ _).symm
  · rfl

theorem run_commitOpening {content : OpeningContent} {receivable : Receivable}
    (accepted : Accepted constants hint block tables (.opening content receivable)) :
    (commitOpening block now content receivable).run tables = (.ok (),
      tables.append ⟨block, Entry.sideband now (.opening content receivable)⟩) := by
  have isRecorded := accepted.recorded now
  have previous := accepted.previous_eq coherent
  cases accepted with | opening form =>
  have names : block.representative? = some content.representative := by
    simp [Block.representative?, form, Content.representative?]
  have legacy : block.kind.isLegacy := congrArg BlockKind.isLegacy (Block.kind_of_form form)
  unfold commitOpening
  simp only [Step.run_bind, Step.run_write, run_storeBlock]
  rw [run_updateAccount named]
  simp only [run_addWeight]
  congr 1
  apply eq_append
  · rw [isRecorded, Entry.before, after_of_names names]
    rfl
  · rfl
  · rw [receivables_append_of_receives]
    · rfl
    · simp [StoredBlock.transfer, form]
  · rw [frontiers_append_of_legacy legacy, previous]
    rw [Entry.before, Option.map_none, Option.getD_none,
      Table.erase_of_absent coherent.zero_unfronted]
    rfl
  · rw [weights_append isRecorded, Entry.before, Option.map_none, votes_after_of_names names]
    rfl
  · rfl

theorem run_commitChange {account : Account} {record : AccountRecord} {content : ChangeContent}
    (accepted : Accepted constants hint block tables (.change account record content))
    (room : record.blockCount.toNat + 1 < UInt64.size) :
    (commitChange block now account record content).run tables = (.ok (),
      tables.append ⟨block, Entry.sideband now (.change account record content)⟩) := by
  have isRecorded := accepted.recorded now
  have fresh := accepted.fresh
  obtain ⟨head, recorded⟩ := accepted.head_recorded coherent now rfl
  obtain ⟨representative, leads⟩ := recorded.leads
  cases accepted with | change form =>
  have names : block.representative? = some content.representative := by
    simp [Block.representative?, form, Content.representative?]
  have legacy : block.kind.isLegacy := congrArg BlockKind.isLegacy (Block.kind_of_form form)
  unfold commitChange
  simp only [Step.run_bind, run_nextHeight room, run_storeBlock]
  rw [run_currentRepresentative representative]
  swap
  · exact leads_insert fresh leads
  simp only [run_subtractWeight, run_addWeight]
  rw [run_updateAccount named]
  simp only [run_moveFrontier]
  congr 1
  apply eq_append
  · rw [isRecorded, Entry.before, after_of_names names]
    rfl
  · rfl
  · rw [receivables_append_of_neither]
    · rfl
    · simp [StoredBlock.transfer, form]
  · rw [frontiers_append_of_legacy legacy]
    rfl
  · rw [weights_append isRecorded, Entry.before, Option.map_some, votes_of_leads leads,
      votes_after_of_names names]
    rfl
  · rfl

omit named in
/-- The first block of a chain is known, or it is the new block. -/
private theorem openBlockAfter_eq {existing : Option AccountRecord} {account : Account}
    (recorded : tables.accounts.get? account = existing) (hash : BlockHash) :
    openBlockAfter (existing.getD .blank) hash
      = (existing.map AccountRecord.openBlock).getD hash := by
  unfold openBlockAfter
  cases existing with
  | none => rfl
  | some record =>
      obtain ⟨head, isRecorded⟩ := coherent.recorded recorded
      obtain ⟨first, found, -⟩ := isRecorded.opening
      exact if_neg (mt (Identifier.isZero_iff _).mp (coherent.keyed found).2)

/-- A state block becomes the head of its account, and no legacy chain has its predecessor as
its head. -/
private theorem run_advance {existing : Option AccountRecord} {content : StateContent}
    (form : block.content = .state content) (sideband : Sideband)
    (recorded : tables.accounts.get? sideband.account = existing)
    (previous : block.previous = (existing.map AccountRecord.head).getD .zero)
    {written : Tables} (accounts : written.accounts = tables.accounts)
    (frontiers : written.frontiers = tables.frontiers) :
    Step.run (do
      updateAccount sideband.account
        { head := block.hash, representativeBlock := block.hash
          openBlock := openBlockAfter (existing.getD .blank) block.hash
          balance := sideband.balance, modified := sideband.timestamp
          blockCount := sideband.height, epoch := sideband.details.epoch }
      dropFrontier (existing.getD .blank)) written
      = (.ok (), { written with
          accounts := (tables.append ⟨block, sideband⟩).accounts
          frontiers := (tables.append ⟨block, sideband⟩).frontiers }) := by
  have names : block.representative? = some content.representative := by
    simp [Block.representative?, form, Content.representative?]
  have isHead : (existing.getD .blank).head = block.previous := by
    rw [previous]
    cases existing <;> rfl
  have accountsAfter : (tables.append ⟨block, sideband⟩).accounts
      = written.accounts.insert sideband.account
          { head := block.hash, representativeBlock := block.hash
            openBlock := openBlockAfter (existing.getD .blank) block.hash
            balance := sideband.balance, modified := sideband.timestamp
            blockCount := sideband.height, epoch := sideband.details.epoch } := by
    rw [openBlockAfter_eq coherent recorded, accounts, ← after_of_names names, ← recorded]
    rfl
  rw [Step.run_bind, run_updateAccount named]
  simp only
  rw [run_dropFrontier (frontiers ▸ coherent.zero_unfronted), isHead,
    frontiers_append_of_state form, accountsAfter, ← frontiers]
  rfl

omit coherent named in
/-- What a transfer does to what waits to be received is what the extended ledger has. -/
private theorem run_settle {existing : Option AccountRecord} {content : StateContent}
    {details : BlockDetails} {amount : Amount} {sourceEpoch : Epoch}
    (coherent : tables.Coherent constants)
    (accepted : Accepted constants hint block tables
      (.transfer existing content details amount sourceEpoch))
    (next : Step Tables Unit) {written : Tables}
    (unsettled : written.receivables = tables.receivables) :
    (if details.isSend then do
        Step.write (Store.putReceivable ⟨content.link.asAccount, block.hash⟩
          ⟨content.account, amount, details.epoch⟩)
        next
      else if !content.link.isZero then do
        Step.write (Store.removeReceivable ⟨content.account, content.link.asBlockHash⟩)
        next
      else next).run written = next.run { written with
        receivables := (tables.append ⟨block,
          Entry.sideband now
            (.transfer existing content details amount sourceEpoch)⟩).receivables } := by
  have before := accepted.balanceBefore_eq coherent
    (Entry.sideband now (.transfer existing content details amount sourceEpoch))
  cases accepted with
  | outgoing form =>
      rw [receivables_append_of_sends, sentAmount, before, ← unsettled]
      · rfl
      · simp [StoredBlock.transfer, form, Entry.sideband]
  | standing form absent signed continues unlinked =>
      rw [receivables_append_of_neither, ← unsettled]
      · simp [unlinked, Identifier.isZero, Identifier.zero]
      · simp [StoredBlock.transfer, form, Entry.sideband]
  | incoming form absent signed continues covered linked =>
      rw [receivables_append_of_receives, ← unsettled]
      · simp [linked]
        rfl
      · simp [StoredBlock.transfer, form, Entry.sideband]

theorem run_commitTransfer {existing : Option AccountRecord} {content : StateContent}
    {details : BlockDetails} {amount : Amount} {sourceEpoch : Epoch}
    (accepted : Accepted constants hint block tables
      (.transfer existing content details amount sourceEpoch))
    (room : (existing.getD .blank).blockCount.toNat + 1 < UInt64.size) :
    (commitTransfer block now existing content details amount sourceEpoch).run tables = (.ok (),
      tables.append ⟨block,
        Entry.sideband now (.transfer existing content details amount sourceEpoch)⟩) := by
  have isRecorded := accepted.recorded now
  have previous := accepted.previous_eq coherent
  have fresh := accepted.fresh
  have form : block.content = .state content := by cases accepted <;> assumption
  have names : block.representative? = some content.representative := by
    simp [Block.representative?, form, Content.representative?]
  unfold commitTransfer
  simp only [Step.run_bind, run_nextHeight room, run_storeBlock]
  cases existing with
  | none =>
      simp only [Option.isSome_none, Bool.false_eq_true, if_false, Step.run_bind, run_addWeight]
      refine (run_settle now coherent accepted _ ?_).trans
        ((run_advance coherent named form _ isRecorded previous ?_ ?_).trans ?_)
      · rfl
      · rfl
      · rfl
      congr 1
      apply eq_append
      · rfl
      · rfl
      · rfl
      · rfl
      · rw [weights_append isRecorded, Entry.before, Option.map_none, votes_after_of_names names]
        rfl
      · rfl
  | some record =>
      obtain ⟨head, recorded⟩ := accepted.head_recorded coherent now rfl
      obtain ⟨representative, leads⟩ := recorded.leads
      simp only [Option.isSome_some, if_true, Step.run_bind, run_addWeight, Option.getD_some]
      rw [run_currentRepresentative representative]
      swap
      · exact leads_insert fresh leads
      simp only [run_subtractWeight]
      refine (run_settle now coherent accepted _ ?_).trans
        ((run_advance coherent named form _ isRecorded previous ?_ ?_).trans ?_)
      · rfl
      · rfl
      · rfl
      congr 1
      apply eq_append
      · rfl
      · rfl
      · rfl
      · rfl
      · rw [weights_append isRecorded, Entry.before, Option.map_some, votes_of_leads leads,
          votes_after_of_names names]
        rfl
      · rfl

theorem run_commitUpgrade {existing : Option AccountRecord} {content : StateContent}
    {epoch : Epoch}
    (accepted : Accepted constants hint block tables (.upgrade existing content epoch))
    (room : (existing.getD .blank).blockCount.toNat + 1 < UInt64.size) :
    (commitUpgrade block now existing content epoch).run tables = (.ok (),
      tables.append ⟨block, Entry.sideband now (.upgrade existing content epoch)⟩) := by
  have isRecorded := accepted.recorded now
  have previous := accepted.previous_eq coherent
  cases accepted with | upgrade form absent signed continues unnamed agrees =>
  have names : block.representative? = some content.representative := by
    simp [Block.representative?, form, Content.representative?]
  unfold commitUpgrade
  rw [Step.run_bind, run_nextHeight room]
  simp only
  rw [Step.run_bind, run_storeBlock]
  simp only
  refine (run_advance coherent named form _ isRecorded previous ?_ ?_).trans ?_
  · rfl
  · rfl
  congr 1
  apply eq_append
  · rfl
  · rfl
  · rw [receivables_append_of_neither]
    · rfl
    · simp [StoredBlock.transfer, form, Entry.sideband]
  · rfl
  · rw [weights_append isRecorded, Entry.before, votes_after_of_names names]
    cases existing with
    | none => exact (reweigh_zero coherent.tidy).symm
    | some record =>
        rw [Option.map_some, votes_of_leads (agrees record rfl)]
        exact (reweigh_same coherent.tidy _).symm
  · rfl

omit named in
/-- An account that cannot count one more block gets no further block. -/
theorem run_commit_overflow {entry : Entry}
    (accepted : Accepted constants hint block tables entry) (full : ¬ entry.HasRoom) :
    ((entry.commit block now).run tables).1 = .error (.overflow .addition) := by
  cases entry with
  | send account record content =>
      obtain ⟨head, recorded⟩ := accepted.head_recorded coherent now rfl
      obtain ⟨representative, leads⟩ := recorded.leads
      simp only [Entry.commit, commitSend, Step.run_bind, run_currentRepresentative _ leads,
        run_subtractWeight]
      rw [run_nextHeight_overflow record full]
  | receive account record content receivable =>
      simp only [Entry.commit, commitReceive, Step.run_bind, Step.run_write]
      rw [run_nextHeight_overflow record full]
  | opening content receivable =>
      have room : AccountRecord.blank.blockCount.toNat + 1 < UInt64.size := by decide
      exact absurd room full
  | change account record content =>
      simp only [Entry.commit, commitChange, Step.run_bind]
      rw [run_nextHeight_overflow record full]
  | transfer existing content details amount sourceEpoch =>
      simp only [Entry.commit, commitTransfer, Step.run_bind]
      rw [run_nextHeight_overflow (existing.getD .blank) full]
  | upgrade existing content epoch =>
      simp only [Entry.commit, commitUpgrade, Step.run_bind]
      rw [run_nextHeight_overflow (existing.getD .blank) full]

/-- In a coherent ledger every commit adds the block with its sideband, and does nothing else. -/
theorem run_commit {entry : Entry} (accepted : Accepted constants hint block tables entry)
    (room : entry.HasRoom) :
    (entry.commit block now).run tables
      = (.ok (), tables.append ⟨block, entry.sideband now⟩) := by
  cases entry with
  | send => exact run_commitSend coherent named now accepted room
  | receive => exact run_commitReceive coherent named now accepted room
  | opening => exact run_commitOpening coherent named now accepted
  | change => exact run_commitChange coherent named now accepted room
  | transfer => exact run_commitTransfer coherent named now accepted room
  | upgrade => exact run_commitUpgrade coherent named now accepted room

end Commits

end Ledger

end AccountChains
