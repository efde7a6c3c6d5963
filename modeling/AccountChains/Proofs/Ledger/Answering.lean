import AccountChains.Proofs.Ledger.Reachable

/-!
Contract: offering a block always gets an answer.

What a call looks up is there, because the tables agree with each other: the owner of a
legacy chain has a record, and the record leads to a representative. What it subtracts is
covered. What is left is the count of the blocks of an account, which is a word of 64
bits. Each offer adds one block at most, so only an account that has taken in one for each
of them fills its count.

Owns: states reached by a number of offers, and that every offer is answered there. Does
not own: what the answer is.
-/

namespace AccountChains

open BlockTable Tables

namespace Ledger

/-- A ledger gets into a state by a number of offers, and by undoing blocks. -/
inductive ReachableIn (constants : LedgerConstants) : Nat → Tables → Prop where
  | started (now : Timestamp) (parked : Table ParkedKey ParkedBlock) (version : Option UInt32) :
      ReachableIn constants 0 (started constants now parked version)
  | offered {offers : Nat} {tables next : Tables} {now : Timestamp} {hint : Verification}
      {block : Block} (reached : ReachableIn constants offers tables)
      (leads : Leads constants tables (.process now hint block) next) :
      ReachableIn constants (offers + 1) next
  | undone {offers : Nat} {tables next : Tables} {hash : BlockHash}
      (reached : ReachableIn constants offers tables)
      (leads : Leads constants tables (.rollback hash) next) : ReachableIn constants offers next

/-- The balance that a block leaves, if it spends. -/
def Entry.left? : Entry → Option Amount
  | .send _ _ content => some content.balance
  | .transfer _ content details _ _ => if details.isSend then some content.balance else none
  | .receive .. | .opening .. | .change .. | .upgrade .. => none

/-! ## Judging -/

/-- A question gets an answer. -/
def Answers {α : Type} (answer : Answer α) : Prop := ∃ value, answer = .ok value

namespace Answers

variable {α β : Type}

theorem pure (value : α) : Answers (Pure.pure value) := ⟨value, rfl⟩

theorem ofStore {result : Except StoreError α} (read : ∃ value, result = .ok value) :
    Answers (stored result) :=
  read.imp fun _ isValue => congrArg stored isValue

theorem bind {query : Answer β} {next : β → Answer α} (first : Answers query)
    (rest : ∀ value, query = .ok value → Answers (next value)) : Answers (query >>= next) := by
  obtain ⟨value, rfl⟩ := first
  exact rest value rfl

theorem ite {condition : Prop} [Decidable condition] {left right : Answer α}
    (leftAnswers : Answers left) (rightAnswers : Answers right) :
    Answers (if condition then left else right) := by
  by_cases holds : condition
  · rwa [if_pos holds]
  · rwa [if_neg holds]

end Answers

/-- All that judging a block may look up can be read, and heads of legacy chains belong to
accounts that have a record. -/
structure Readable {σ : Type} [Store σ] (store : σ) : Prop where
  account : ∀ account, ∃ record, Store.account? store account = .ok record
  block : ∀ hash, ∃ found, Store.block? store hash = .ok found
  frontier : ∀ hash, ∃ account, Store.frontier? store hash = .ok account
  receivable : ∀ key, ∃ receivable, Store.receivable? store key = .ok receivable
  owned : ∀ {hash account}, Store.frontier? store hash = .ok (some account) →
    ∃ record, Store.account? store account = .ok (some record)

section Judging

variable {σ : Type} [Store σ] {store : σ} (readable : Readable store) {constants : LedgerConstants}
  {hint : Verification} {block : Block}

include readable

theorem answers_frontierRecord {hash : BlockHash} {account : Account}
    (fronted : stored (Store.frontier? store hash) = .ok (some account)) :
    Answers (frontierRecord store account) := by
  have isFronted : Store.frontier? store hash = .ok (some account) := by
    obtain ⟨other, isOther⟩ := readable.frontier hash
    rw [isOther] at fronted ⊢
    exact congrArg Except.ok (Except.ok.inj fronted)
  obtain ⟨record, recorded⟩ := readable.owned isFronted
  refine ⟨record, ?_⟩
  unfold frontierRecord
  rw [recorded]
  rfl

theorem answers_balance (hash : BlockHash) : Answers (balance? store hash) :=
  .bind (.ofStore (readable.block hash)) fun _ _ => .pure _

theorem answers_representativeOfBlock (hash : BlockHash) :
    Answers (representativeOfBlock? store hash) :=
  .bind (.ofStore (readable.block hash)) fun _ _ => .pure _

theorem exists_hasAccount (account : Account) :
    ∃ recorded, Store.hasAccount store account = .ok recorded := by
  obtain ⟨record, isRecord⟩ := readable.account account
  exact ⟨record.isSome, by rw [Store.hasAccount, isRecord]; rfl⟩

/-- A legacy block gets an answer if the rest of its checks gets one for every owner of the chain
that it goes on with. -/
theorem answers_judgeAfter {rest : Account → Answer Judgement}
    (each : ∀ account, stored (Store.frontier? store block.previous) = .ok (some account) →
      Answers (rest account)) :
    Answers (judgeAfter hint block store rest) := by
  unfold judgeAfter
  refine .ite (.pure _) (.bind (.ofStore (readable.block _)) fun before _ => ?_)
  split
  · refine .ite (.pure _) (.bind (.ofStore (readable.frontier _)) fun account fronted => ?_)
    split
    · exact each _ fronted
    · exact .pure _
  · exact .pure _

theorem answers_judgeSend {content : SendContent} (form : block.content = .send content) :
    Answers (judgeSend hint block content store) := by
  rw [judgeSend_eq hint store form]
  refine answers_judgeAfter readable fun account fronted => .ite (.pure _) ?_
  exact .bind (answers_frontierRecord readable fronted) fun _ _ => .ite (.pure _) (.pure _)

theorem answers_judgeReceive {content : ReceiveContent} (form : block.content = .receive content) :
    Answers (judgeReceive hint block content store) := by
  rw [judgeReceive_eq hint store form]
  refine answers_judgeAfter readable fun account fronted => .ite (.pure _) (.ite (.pure _) ?_)
  refine .bind (answers_frontierRecord readable fronted) fun _ _ => .ite (.pure _) ?_
  refine .bind (.ofStore (readable.receivable _)) fun receivable _ => ?_
  split
  · exact .ite (.pure _) (.pure _)
  · exact .pure _

theorem answers_judgeOpening (content : OpeningContent) :
    Answers (judgeOpening constants hint block content store) := by
  unfold judgeOpening
  refine .ite (.pure _) (.ite (.pure _) (.ite (.pure _) ?_))
  refine .bind (.ofStore (exists_hasAccount readable _)) fun _ _ => .ite (.pure _) ?_
  refine .bind (.ofStore (readable.receivable _)) fun receivable _ => ?_
  split
  · exact .ite (.pure _) (.ite (.pure _) (.pure _))
  · exact .pure _

theorem answers_judgeChange {content : ChangeContent} (form : block.content = .change content) :
    Answers (judgeChange hint block content store) := by
  rw [judgeChange_eq hint store form]
  refine answers_judgeAfter readable fun account fronted => ?_
  exact .bind (answers_frontierRecord readable fronted) fun _ _ => .ite (.pure _) (.pure _)

theorem answers_judgeTransfer (content : StateContent) :
    Answers (judgeTransfer hint block content store) := by
  unfold judgeTransfer
  repeat' first
    | apply Answers.ite
    | refine .bind (.ofStore (readable.account _)) fun _ _ => ?_
    | refine .bind (.ofStore (readable.receivable _)) fun _ _ => ?_
    | split
    | exact .pure _

theorem answers_judgeUpgrade (content : StateContent) :
    Answers (judgeUpgrade constants hint block content store) := by
  unfold judgeUpgrade
  repeat' first
    | apply Answers.ite
    | refine .bind (.ofStore (readable.account _)) fun _ _ => ?_
    | refine .bind (answers_representativeOfBlock readable _) fun _ _ => ?_
    | split
    | exact .pure _

theorem answers_judgeState (content : StateContent) :
    Answers (judgeState constants hint block content store) := by
  unfold judgeState
  refine .ite (answers_judgeTransfer readable content) (.ite
    (.bind (.pure _) fun before _ => ?_) (.bind (answers_balance readable _) fun before _ => ?_))
  -- The balance before is known without a lookup, or has been looked up; it is used alike.
  all_goals cases before with
    | none => exact .pure _
    | some balance =>
        exact .ite (answers_judgeUpgrade readable content) (answers_judgeTransfer readable content)

theorem answers_judge : Answers (judge constants hint block store) := by
  unfold judge
  cases form : block.content with
  | send content => exact answers_judgeSend readable form
  | receive content => exact answers_judgeReceive readable form
  | opening content => exact answers_judgeOpening readable content
  | change content => exact answers_judgeChange readable form
  | state content => exact answers_judgeState readable content

end Judging

/-! ## Counting -/

section Counting

variable {constants : LedgerConstants} {tables : Tables} {offers : Nat} {now : Timestamp}
  {hint : Verification} {block : Block} {entry : Entry}

theorem readable_of_coherent (coherent : tables.Coherent constants) : Readable tables where
  account account := ⟨tables.accounts.get? account, rfl⟩
  block hash := ⟨tables.blocks.get? hash, rfl⟩
  frontier hash := ⟨tables.frontiers.get? hash, rfl⟩
  receivable key := ⟨tables.receivables.get? key, rfl⟩
  owned fronted := by
    obtain ⟨head, found, rfl, -⟩ := (coherent.fronted _ _).mp (Except.ok.inj fronted)
    obtain ⟨record, belongs⟩ := coherent.belongs found
    exact ⟨record, congrArg Except.ok belongs.found⟩

theorem ReachableIn.reachable (reached : ReachableIn constants offers tables) :
    Reachable constants tables := by
  induction reached with
  | started now parked version => exact .started now parked version
  | offered _ leads inductionHypothesis => exact .after inductionHypothesis leads
  | undone _ leads inductionHypothesis => exact .after inductionHypothesis leads

/-- No chain is longer than what was offered, with the genesis block. -/
theorem ReachableIn.height_le (reached : ReachableIn constants offers tables)
    (sound : constants.Sound) {hash : BlockHash} {stored : StoredBlock}
    (found : tables.blocks.get? hash = some stored) :
    stored.sideband.height.toNat ≤ offers + 1 := by
  induction reached generalizing hash stored with
  | started now parked version =>
      obtain ⟨-, rfl⟩ := (found_started now parked version).mp found
      exact le_rfl
  | @offered offers tables next now hint block reached leads inductionHypothesis =>
      have coherent := reached.reachable.coherent sound
      cases leads with
      | answered named returned =>
          cases processes_of_run coherent named returned with
          | declined => exact (inductionHypothesis found).trans (Nat.le_succ _)
          | @appended entry accepted room =>
              rcases found_append.mp found with ⟨-, rfl⟩ | ⟨-, before⟩
              · rw [accepted.height_eq room]
                cases isBefore : entry.before with
                | none => exact Nat.succ_le_succ (Nat.zero_le _)
                | some record =>
                    obtain ⟨head, recorded⟩ := accepted.head_recorded coherent now isBefore
                    rw [Option.getD_some, recorded.blockCount]
                    exact Nat.succ_le_succ (inductionHypothesis recorded.found)
              · exact (inductionHypothesis before).trans (Nat.le_succ _)
      | failed named returned =>
          cases processes_of_run coherent named returned with
          | failed => exact (inductionHypothesis found).trans (Nat.le_succ _)
  | @undone offers tables next hash reached leads inductionHypothesis =>
      have coherent := reached.reachable.coherent sound
      cases leads with
      | undone stored notGenesis =>
          have removes := (rollback_unwinds coherent sound stored notGenesis).removes
          exact inductionHypothesis (removes.found_iff.mp found).2

/-- What an accepted block takes from a balance is covered by it. -/
theorem left_covered (judged : judge constants hint block tables = .ok (.accepted entry))
    {left : Amount} (spends : entry.left? = some left) :
    (balanceOf entry.before).sub left = .ok entry.receipt.amount := by
  have sub_of_le {whole part : Amount} (covered : part.toNat ≤ whole.toNat) :
      whole.sub part = .ok (whole.wrappingSub part) := by
    unfold Amount.sub Amount.sub?
    rw [if_pos covered]
  cases accepted_of_judge judged with
  | send form follows covered =>
      obtain rfl := Option.some.inj spends
      rw [Amount.lt_iff_toNat_lt, Nat.not_lt] at covered
      exact sub_of_le covered
  | outgoing form absent signed continues covered =>
      obtain rfl := Option.some.inj spends
      rw [Amount.lt_iff_toNat_lt] at covered
      exact sub_of_le covered.le
  | receive | opening | change | standing | incoming | upgrade => simp [Entry.left?] at spends

/-- An offer is answered, unless the account of the block cannot count one more. -/
theorem answered_or_full (coherent : tables.Coherent constants)
    (named : block.hash ≠ .zero) (now : Timestamp) (hint : Verification) :
    (∃ receipt, ((process constants now hint block).run tables).1 = .ok receipt) ∨
      ((process constants now hint block).run tables).1 = .error (.overflow .addition) ∧
        ∃ account record, tables.accounts.get? account = some record ∧
          record.blockCount.toNat + 1 = UInt64.size := by
  obtain ⟨judgement, judged⟩ : Answers (judge constants hint block tables) :=
    answers_judge (readable_of_coherent coherent)
  rw [run_process, judged]
  cases judgement with
  | refused receipt => exact .inl ⟨receipt, rfl⟩
  | accepted entry =>
      have accepted := accepted_of_judge judged
      simp only [Step.run_bind]
      by_cases room : entry.HasRoom
      · rw [run_commit coherent named now accepted room]
        exact .inl ⟨entry.receipt, rfl⟩
      · have overflow := run_commit_overflow coherent now accepted room
        refine .inr ⟨?_, ?_⟩
        · cases outcome : (entry.commit block now).run tables with
          | mk answer written =>
              rw [outcome] at overflow
              obtain rfl : answer = _ := overflow
              rfl
        · cases isBefore : entry.before with
          | none =>
              have blank : AccountRecord.blank.blockCount.toNat + 1 < UInt64.size := by decide
              exact absurd (by rwa [Entry.HasRoom, isBefore]) room
          | some record =>
              rw [Entry.HasRoom, isBefore, Option.getD_some] at room
              have bounded : record.blockCount.toNat < UInt64.size := record.blockCount.toNat_lt
              exact ⟨_, record, (accepted.recorded now).trans isBefore, by omega⟩

end Counting

/-! ## Offering -/

section Offering

variable {constants : LedgerConstants} {tables : Tables} {offers : Nat} {block : Block}

/-- Whatever is offered to a ledger, it gets an answer, as long as the genesis block, all that
was offered until now and this block are fewer than `2 ^ 64`. At no time is the answer an error:
beyond that number the count of blocks may overflow, for an account that has filled it, and
nothing else. And all that is subtracted is covered. -/
theorem ReachableIn.offer_answered (reached : ReachableIn constants offers tables)
    (sound : constants.Sound) (named : block.hash ≠ .zero) (now : Timestamp)
    (hint : Verification) :
    (offers + 2 < UInt64.size →
      ∃ receipt, ((process constants now hint block).run tables).1 = .ok receipt) ∧
    (∀ fault, ((process constants now hint block).run tables).1 = .error fault →
      fault = .overflow .addition ∧ ∃ account record,
        tables.accounts.get? account = some record ∧
          record.blockCount.toNat + 1 = UInt64.size) ∧
    ∀ entry left, judge constants hint block tables = .ok (.accepted entry) →
      entry.left? = some left → (balanceOf entry.before).sub left = .ok entry.receipt.amount := by
  have coherent := reached.reachable.coherent sound
  have outcome := answered_or_full coherent named now hint
  refine ⟨fun fewer => ?_, fun fault failed => ?_, fun entry left judged spends =>
    left_covered judged spends⟩
  · rcases outcome with answered | ⟨-, account, record, recorded, full⟩
    · exact answered
    · obtain ⟨head, describes⟩ := coherent.recorded recorded
      have height := reached.height_le sound describes.found
      rw [← describes.blockCount] at height
      omega
  · rcases outcome with ⟨receipt, answered⟩ | ⟨overflow, full⟩
    · simp [answered] at failed
    · exact ⟨Except.error.inj (failed.symm.trans overflow), full⟩

theorem reachableIn_devSent : ReachableIn .dev 1 devSent :=
  .offered (.started .zero .empty none) (.answered dev_named.1 devSend_progresses)

/-- The opening block is answered after the send. -/
theorem devOpening_answered : ∃ receipt,
    ((process .dev .zero .valid devOpening).run devSent).1 = .ok receipt :=
  (reachableIn_devSent.offer_answered dev_sound dev_named.2 .zero .valid).1 (by decide)

end Offering

end Ledger

end AccountChains
