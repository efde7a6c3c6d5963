import AccountChains.Proofs.Intake.Moves
import AccountChains.Proofs.Ledger.Untouched

/-!
Contract: what a verdict about a gap says is missing, and the block that waits for it.

A predecessor is said to be missing if it is not stored. In one case the ledger does not
look: a state block whose account has no chain must not name a predecessor, be it stored
or not. A source is said to be missing if it is not stored, also if the block names none.
The intake parks a block under what it is said to miss.

Asked ahead whether a block could fit, the ledger goes by what the block depends on. That
is neither the zero hash nor an epoch link, while either may be said to be missing.

Owns: `Missing`, and that verdicts, the question ahead and the parked blocks agree on it.
Does not own: what is done when the missing block has come.
-/

namespace AccountChains

open BlockTable Tables

theorem Bench.missingSource_of_unlinked {block : Block} (unlinked : block.link = .zero) :
    missingSource block = block.source := by
  unfold missingSource
  by_cases unnamed : block.source = .zero
  · rw [unlinked, unnamed]
    rfl
  · rw [if_neg (mt (Identifier.isZero_iff _).mp unnamed)]

theorem Bench.missingSource_of_unnamed {block : Block} (unnamed : block.source = .zero) :
    missingSource block = block.link.asBlockHash := by
  unfold missingSource
  rw [if_pos ((Identifier.isZero_iff _).mpr unnamed)]

namespace Ledger

/-- A state block comes after a block that is there, though its account has no chain. -/
def Detached (tables : Tables) (block : Block) : Prop :=
  block.kind = .state ∧ (∃ before, tables.blocks.get? block.previous = some before) ∧
    tables.accounts.get? block.account = none

/-- What a verdict about a gap is backed by. The other verdicts are not about gaps. -/
def Missing (tables : Tables) (block : Block) : Verdict → Prop
  | .gapPrevious => tables.blocks.get? block.previous = none ∨ Detached tables block
  | .gapSource => tables.blocks.get? (Bench.missingSource block) = none ∧
      isSend tables block = .ok false
  | _ => True

/-- If a judgement is a refusal because of a gap, something is missing. -/
def Judgement.Warranted (tables : Tables) (block : Block) : Judgement → Prop
  | .refused receipt => Missing tables block receipt.verdict
  | .accepted _ => True

section Judging

variable {constants : LedgerConstants} {hint : Verification} {block : Block} {tables : Tables}

theorem absent_of_missing {hash : BlockHash} (missing : !Store.hasBlock tables hash) :
    tables.blocks.get? hash = none :=
  (Table.contains_eq_false_iff _ _).mp ((Bool.not_eq_true' _).mp missing)

/-! ### Legacy blocks -/

/-- The frontier of a legacy chain is the head of its account. -/
theorem head_of_fronted (coherent : tables.Coherent constants) {previous : BlockHash}
    {account : Account} {record : AccountRecord}
    (fronted : tables.frontiers.get? previous = some account)
    (recorded : tables.accounts.get? account = some record) : record.head = previous := by
  obtain ⟨head, found, rfl, -, last⟩ := (coherent.fronted _ _).mp fronted
  obtain ⟨other, belongs⟩ := coherent.belongs found
  obtain rfl := Option.some.inj (belongs.found.symm.trans recorded)
  exact belongs.last last

theorem recorded_of_frontierRecord {account : Account} {record : AccountRecord}
    (answers : frontierRecord tables account = .ok record) :
    tables.accounts.get? account = some record := by
  rw [frontierRecord_eq] at answers
  cases recorded : tables.accounts.get? account with
  | none => simp [recorded] at answers
  | some found =>
      rw [recorded] at answers
      exact congrArg some (Except.ok.inj answers)

/-- A receive or opening block whose source is missing is parked under this source. -/
theorem missing_source_of_legacy (missing : !Store.hasBlock tables block.source)
    (receives : block.kind = .receive ∨ block.kind = .opening) :
    Missing tables block .gapSource := by
  unfold Block.kind at receives
  cases form : block.content with
  | send | change | state => simp [form, Content.kind] at receives
  | receive content | opening content =>
      refine ⟨?_, by rw [isSend, form]; rfl⟩
      rw [Bench.missingSource_of_unlinked (by rw [Block.link, form]; rfl)]
      exact absent_of_missing missing

theorem warranted_judgeSend {content : SendContent} (form : block.content = .send content) :
    Gives (Judgement.Warranted tables block) (judgeSend hint block content tables) := by
  rw [judgeSend_eq hint tables form]
  refine gives_judgeAfter trivial trivial trivial .inl fun account _ =>
    .ite (fun _ => .pure trivial) fun _ => .bind (.self _) fun record _ => ?_
  exact .ite (fun _ => .pure trivial) fun _ => .pure trivial

theorem warranted_judgeReceive (coherent : tables.Coherent constants) {content : ReceiveContent}
    (form : block.content = .receive content) :
    Gives (Judgement.Warranted tables block) (judgeReceive hint block content tables) := by
  rw [judgeReceive_eq hint tables form]
  refine gives_judgeAfter trivial trivial trivial .inl fun account fronted =>
    .ite (fun _ => .pure trivial) fun _ => .ite (fun missing => .pure ?_) fun _ =>
    .bind (.self _) fun record recorded => .ite (fun elsewhere => ?_) fun _ =>
    .bind (.self _) fun receivable _ => ?_
  · refine missing_source_of_legacy ?_ (.inl (Block.kind_of_form form))
    rwa [Block.source, form]
  · rw [Block.previous_of_form form] at fronted
    exact absurd (head_of_fronted coherent fronted (recorded_of_frontierRecord recorded)) elsewhere
  · cases receivable with
    | none => exact .pure trivial
    | some receivable => exact .ite (fun _ => .pure trivial) fun _ => .pure trivial

theorem warranted_judgeOpening {content : OpeningContent}
    (form : block.content = .opening content) :
    Gives (Judgement.Warranted tables block)
      (judgeOpening constants hint block content tables) := by
  unfold judgeOpening
  refine .ite (fun _ => .pure trivial) fun _ => .ite (fun _ => .pure trivial) fun _ =>
    .ite (fun missing => .pure ?_) fun _ => .bind (.self _) fun opened _ =>
    .ite (fun _ => .pure trivial) fun _ => .bind (.self _) fun receivable _ => ?_
  · refine missing_source_of_legacy ?_ (.inr (Block.kind_of_form form))
    rwa [Block.source, form]
  · cases receivable with
    | none => exact .pure trivial
    | some receivable =>
        exact .ite (fun _ => .pure trivial) fun _ => .ite (fun _ => .pure trivial) fun _ =>
          .pure trivial

theorem warranted_judgeChange {content : ChangeContent} (form : block.content = .change content) :
    Gives (Judgement.Warranted tables block) (judgeChange hint block content tables) := by
  rw [judgeChange_eq hint tables form]
  refine gives_judgeAfter trivial trivial trivial .inl fun account _ =>
    .bind (.self _) fun record _ => ?_
  exact .ite (fun _ => .pure trivial) fun _ => .pure trivial

/-! ### State blocks -/

section State

variable {content : StateContent} (form : block.content = .state content)

include form

/-- A first block must not name a predecessor, be it there or not. -/
theorem missing_previous_of_unopened (unopened : tables.accounts.get? content.account = none) :
    Missing tables block .gapPrevious := by
  cases found : tables.blocks.get? block.previous with
  | none => exact .inl found
  | some before =>
      refine .inr ⟨Block.kind_of_form form, ⟨before, found⟩, ?_⟩
      rwa [Block.account, form]

/-- A state block that does not spend is parked under its link, if this is missing. -/
theorem missing_source_of_state (keeps : isSend tables block = .ok false)
    (missing : !Store.hasBlock tables content.link.asBlockHash) :
    Missing tables block .gapSource := by
  refine ⟨?_, keeps⟩
  rw [Bench.missingSource_of_unnamed (by rw [Block.source, form]; rfl), Block.link_of_form form]
  exact absent_of_missing missing

theorem isSend_first (first : content.previous = .zero) : isSend tables block = .ok false := by
  simp only [isSend, form]
  rw [if_pos ((Identifier.isZero_iff _).mpr first)]
  rfl

theorem isSend_later {before : StoredBlock} (later : content.previous ≠ .zero)
    (found : tables.blocks.get? content.previous = some before) :
    isSend tables block = .ok (decide (content.balance < before.sideband.balance)) := by
  simp only [isSend, form, balance?, stored, Store.block?, found]
  rw [if_neg (mt (Identifier.isZero_iff _).mp later)]
  rfl

theorem warranted_judgeTransfer (coherent : tables.Coherent constants) :
    Gives (Judgement.Warranted tables block) (judgeTransfer hint block content tables) := by
  unfold judgeTransfer
  refine .ite (fun _ => .pure trivial) fun _ => .ite (fun _ => .pure trivial) fun _ =>
    .ite (fun _ => .pure trivial) fun _ => .bind (.self _) fun existing recorded => ?_
  have isExisting : tables.accounts.get? content.account = existing := Except.ok.inj recorded
  cases existing with
  | none =>
      refine .ite (fun _ => .pure (missing_previous_of_unopened form isExisting)) fun first => ?_
      have keeps : isSend tables block = .ok false := isSend_first form (by simpa using first)
      refine .ite (fun unlinked => .pure (missing_source_of_state form keeps ?_)) fun _ =>
        .ite (fun _ => .pure trivial) fun _ => ?_
      · rw [(Identifier.isZero_iff _).mp unlinked]
        exact (Bool.not_eq_true' _).mpr
          ((Table.contains_eq_false_iff _ _).mpr coherent.zero_absent)
      · repeat' first
          | exact .pure trivial
          | exact .pure (missing_source_of_state form keeps ‹_›)
          | refine .ite (fun _ => ?_) fun _ => ?_
          | refine .bind (.self _) fun _ _ => ?_
          | split
  | some record =>
      refine .ite (fun _ => .pure trivial) fun later => .ite (fun missing => .pure ?_) fun _ =>
        .ite (fun _ => .pure trivial) fun isHead => .ite (fun _ => .pure trivial) fun notSend => ?_
      · refine .inl ?_
        rw [Block.previous_of_form form]
        exact absent_of_missing missing
      · obtain ⟨head, describes⟩ := coherent.recorded isExisting
        have keeps : isSend tables block = .ok false := by
          rw [isSend_later form (by simpa using later) (not_not.mp isHead ▸ describes.found),
            ← describes.balance]
          exact congrArg Except.ok (Bool.eq_false_of_not_eq_true notSend)
        repeat' first
          | exact .pure trivial
          | exact .pure (missing_source_of_state form keeps ‹_›)
          | refine .ite (fun _ => ?_) fun _ => ?_
          | refine .bind (.self _) fun _ _ => ?_
          | split

theorem warranted_judgeUpgrade :
    Gives (Judgement.Warranted tables block)
      (judgeUpgrade constants hint block content tables) := by
  unfold judgeUpgrade
  refine .ite (fun _ => .pure trivial) fun _ => .ite (fun _ => .pure trivial) fun _ =>
    .ite (fun _ => .pure trivial) fun _ => .bind (.self _) fun existing recorded => ?_
  cases existing with
  | none =>
      refine .ite (fun _ => .pure (missing_previous_of_unopened form (Except.ok.inj recorded)))
        fun _ => .ite (fun _ => .pure trivial) fun _ => ?_
      repeat' first
        | exact .pure trivial
        | refine .ite (fun _ => ?_) fun _ => ?_
        | split
  | some record =>
      repeat' first
        | exact .pure trivial
        | refine .ite (fun _ => ?_) fun _ => ?_
        | refine .bind (.self _) fun _ _ => ?_
        | split

/-- Whoever has signed it, the block before it is missing. -/
theorem warranted_refuseEpochGap (absent : tables.blocks.get? content.previous = none) :
    (refuseEpochGap constants hint block content).Warranted tables block := by
  have gap : Missing tables block .gapPrevious := .inl (by rwa [Block.previous_of_form form])
  -- The conditions are only ever rewritten: closing a goal by computation would run the checks.
  unfold refuseEpochGap
  by_cases isKnown : hint ≠ .unknown
  · rwa [if_pos isKnown]
  by_cases signed : block.isSignedBy content.account
  · rwa [if_neg isKnown, if_pos signed]
  by_cases epochSigned : block.isSignedBy ((constants.epochs.signer? content.link).getD .zero)
  · rwa [if_neg isKnown, if_neg signed, if_pos epochSigned]
  · rw [if_neg isKnown, if_neg signed, if_neg epochSigned]
    trivial

theorem warranted_judgeState (coherent : tables.Coherent constants) :
    Gives (Judgement.Warranted tables block) (judgeState constants hint block content tables) :=
  gives_judgeState (warranted_judgeTransfer form coherent) (warranted_judgeUpgrade form)
    fun gap => warranted_refuseEpochGap form (Option.map_eq_none_iff.mp (Except.ok.inj gap))

end State

/-- A block is told that it has a gap only where something is missing. -/
theorem warranted_judge (coherent : tables.Coherent constants) :
    Gives (Judgement.Warranted tables block) (judge constants hint block tables) := by
  unfold judge
  cases form : block.content with
  | send content => exact warranted_judgeSend form
  | receive content => exact warranted_judgeReceive coherent form
  | opening content => exact warranted_judgeOpening form
  | change content => exact warranted_judgeChange form
  | state content => exact warranted_judgeState form coherent

/-- Only a judgement ends with another verdict than progress, and it writes nothing. -/
theorem judge_of_process {now : Timestamp} {receipt : Receipt} {written : Tables}
    (returned : (process constants now hint block).run tables = (.ok receipt, written))
    (isRefusal : receipt.verdict ≠ .progress) :
    judge constants hint block tables = .ok (.refused receipt) ∧ written = tables := by
  rw [run_process] at returned
  cases judged : judge constants hint block tables with
  | error fault => simp [judged] at returned
  | ok judgement =>
      rw [judged] at returned
      cases judgement with
      | refused refusal =>
          obtain ⟨isReceipt, rfl⟩ := Prod.mk.inj returned
          exact ⟨by rw [Except.ok.inj isReceipt], rfl⟩
      | accepted entry =>
          simp only [Step.run_bind] at returned
          cases outcome : (entry.commit block now).run tables with
          | mk answer middle =>
              rw [outcome] at returned
              cases answer with
              | error fault => simp at returned
              | ok done =>
                  obtain rfl := Except.ok.inj (Prod.mk.inj returned).1
                  exact absurd entry.progresses isRefusal

/-- An offer is answered with a verdict. -/
def Told (constants : LedgerConstants) (tables : Tables) (now : Timestamp) (hint : Verification)
    (block : Block) (verdict : Verdict) : Prop :=
  ∃ receipt written, (process constants now hint block).run tables = (.ok receipt, written) ∧
    receipt.verdict = verdict

/-- A verdict about a gap is given only where something is missing. -/
theorem Told.missing {now : Timestamp} {verdict : Verdict}
    (told : Told constants tables now hint block verdict) (isRefusal : verdict ≠ .progress)
    (coherent : tables.Coherent constants) : Missing tables block verdict := by
  obtain ⟨receipt, written, returned, rfl⟩ := told
  exact warranted_judge coherent _ (judge_of_process returned isRefusal).1

end Judging

/-! ## Asking ahead -/

section Asking

variable {constants : LedgerConstants} {block : Block} {tables : Tables}

theorem exists_isSend (tables : Tables) (block : Block) :
    ∃ spends, isSend tables block = .ok spends := by
  unfold isSend
  cases block.content with
  | send | receive | opening | change => exact ⟨_, rfl⟩
  | state content =>
      dsimp only
      split
      · exact ⟨_, rfl⟩
      · exact ⟨_, rfl⟩

theorem dependentBlocks_previous (constants : LedgerConstants) (tables : Tables) (block : Block) :
    ∃ source, dependentBlocks constants tables block = .ok (block.previous, source) := by
  obtain ⟨spends, answers⟩ := exists_isSend tables block
  unfold dependentBlocks
  rw [answers]
  cases block.content with
  | send | receive | opening | change => exact ⟨_, rfl⟩
  | state content =>
      cases skipped : spends || constants.epochs.isEpochLink content.link with
      | true => exact ⟨.zero, by simp only [bind, Except.bind, skipped]; rfl⟩
      | false => exact ⟨content.link.asBlockHash, by simp only [bind, Except.bind, skipped]; rfl⟩

/-- A block that does not spend depends on the source under which it would be parked, unless this
is an epoch link. -/
theorem dependentBlocks_source (keeps : isSend tables block = .ok false)
    (unlinked : block.kind = .state → constants.epochs.isEpochLink block.link = false) :
    dependentBlocks constants tables block
      = .ok (block.previous, Bench.missingSource block) := by
  unfold dependentBlocks
  rw [keeps]
  unfold Block.kind Block.link at unlinked
  cases form : block.content with
  | send content =>
      simp only [isSend, form] at keeps
      exact nomatch keeps
  | receive | opening | change =>
      rw [Bench.missingSource_of_unlinked (by rw [Block.link, form]; rfl), Block.source, form]
      rfl
  | state content =>
      simp only [form, Content.kind, Content.link, true_implies] at unlinked
      rw [Bench.missingSource_of_unnamed (by rw [Block.source, form]; rfl), Block.link, form]
      simp only [bind, Except.bind, Bool.false_or, unlinked]
      rfl

theorem couldFit_of_missing {previous source dependency : BlockHash}
    (depends : dependentBlocks constants tables block = .ok (previous, source))
    (isDependency : dependency = previous ∨ dependency = source) (named : dependency ≠ .zero)
    (absent : tables.blocks.get? dependency = none) :
    couldFit constants tables block = .ok false := by
  have unfit : (dependency.isZero || Store.hasBlock tables dependency) = false :=
    Bool.or_eq_false_iff.mpr ⟨(Identifier.isZero_eq_false_iff _).mpr named,
      (Table.contains_eq_false_iff _ _).mpr absent⟩
  unfold couldFit
  rw [depends]
  refine congrArg Except.ok (List.all_eq_false.mpr ⟨dependency, ?_, by simpa using unfit⟩)
  simpa using isDependency

end Asking

end Ledger

/-! ## Parking -/

namespace Bench

open Ledger

variable {setup : IntakeSetup} {bench : Bench Tables} {item : QueuedBlock} {now : Timestamp}
  {key : ParkedKey} {waiting : ParkedBlock}

/-- The block under which a block with a gap is parked. -/
def awaited? (block : Block) : Verdict → Option BlockHash
  | .gapPrevious => some block.previous
  | .gapSource => some (missingSource block)
  | _ => none

theorem parked_takeParked {settings : IntakeSettings} {dependency : BlockHash}
    (bench : Bench Tables)
    (found : (bench.takeParked settings dependency).2.store.parked.get? key = some waiting) :
    bench.store.parked.get? key = some waiting := by
  obtain ⟨requeue, took, -⟩ := takeParked_eq_ite settings dependency bench
  rw [took] at found
  dsimp only at found
  split at found
  · rw [Table.get?_restrict, Option.filter_eq_some_iff] at found
    exact found.1
  · exact found

/-- What is parked after a verdict was parked before, or waits for the block that the verdict
says to be missing. -/
theorem parked_follow {settings : IntakeSettings} {receipt : Receipt}
    (found : (bench.follow settings now item receipt).2.store.parked.get? key = some waiting) :
    bench.store.parked.get? key = some waiting ∨
      awaited? item.block receipt.verdict = some key.dependency := by
  unfold follow at found
  have parks (dependency : BlockHash)
      (isParked : (bench.park item dependency receipt.verified).store.parked.get? key
        = some waiting) :
      bench.store.parked.get? key = some waiting ∨ dependency = key.dependency := by
    by_cases isKey : key = ⟨dependency, item.hash⟩
    · exact .inr (congrArg ParkedKey.dependency isKey).symm
    · exact .inl ((Table.get?_insert_of_ne _ isKey _).symm.trans isParked)
  cases verdict : receipt.verdict with
  | gapPrevious =>
      rw [verdict] at found
      exact (parks _ found).imp_right (congrArg some)
  | gapSource =>
      rw [verdict] at found
      exact (parks _ found).imp_right (congrArg some)
  | progress =>
      rw [verdict] at found
      have kept := parked_takeParked _ found
      split at kept <;> exact .inl kept
  | old =>
      rw [verdict] at found
      dsimp only at found
      split at found
      · exact .inl found
      · exact .inl (parked_takeParked bench found)
  | fork =>
      rw [verdict] at found
      dsimp only at found
      split at found <;> exact .inl found
  | _ =>
      rw [verdict] at found
      exact .inl found

theorem blocks_follow (settings : IntakeSettings) (now : Timestamp) (item : QueuedBlock)
    (receipt : Receipt) (bench : Bench Tables) :
    (bench.follow settings now item receipt).2.store.blocks = bench.store.blocks := by
  obtain ⟨requeue, parked, events, metrics, follows, -⟩ :=
    disposes_follow settings now item receipt bench
  rw [follows]

/-- A block that is told that it has a gap before it is parked under its predecessor. -/
theorem parked_previous {receipt : Receipt} {written : Tables}
    (returned : (process setup.constants now item.verified item.block).run bench.store
      = (.ok receipt, written))
    (isGap : receipt.verdict = .gapPrevious) :
    (bench.offer setup now item).2.store.parked.get? ⟨item.block.previous, item.hash⟩
      = some (item.toParked receipt.verified) := by
  unfold offer
  rw [returned]
  simp only [follow, isGap]
  exact Table.get?_insert_self ..

theorem isRefusal_of_awaited {block : Block} {verdict : Verdict} {dependency : BlockHash}
    (awaited : awaited? block verdict = some dependency) : verdict ≠ .progress := by
  rintro rfl
  exact nomatch awaited

/-- A block is parked only where its offer is refused because of a gap. -/
theorem parked_offer
    (found : (bench.offer setup now item).2.store.parked.get? key = some waiting) :
    bench.store.parked.get? key = some waiting ∨ ∃ verdict,
      Told setup.constants bench.store now item.verified item.block verdict ∧
      awaited? item.block verdict = some key.dependency ∧
      (bench.offer setup now item).2.store.blocks = bench.store.blocks := by
  unfold offer at found ⊢
  cases ran : (process setup.constants now item.verified item.block).run bench.store with
  | mk answer written =>
      rw [ran] at found
      cases answer with
      | error fault => exact .inl (parked_process ran ▸ found)
      | ok receipt =>
          dsimp only at found ⊢
          have blocks := blocks_follow setup.settings now item receipt
            ⟨written, bench.events, bench.metrics.recordVerdict receipt.verdict⟩
          cases follows : follow setup.settings now item receipt
              ⟨written, bench.events, bench.metrics.recordVerdict receipt.verdict⟩ with
          | mk answer final =>
              have isParked : final.store.parked.get? key = some waiting := by
                rw [follows] at found
                cases answer <;> exact found
              rw [follows] at blocks
              rcases parked_follow (by rw [follows]; exact isParked) with before | awaited
              · exact .inl (parked_process ran ▸ before)
              · have unwritten := (judge_of_process ran (isRefusal_of_awaited awaited)).2
                subst unwritten
                refine .inr ⟨_, ⟨receipt, bench.store, ran, rfl⟩, awaited, ?_⟩
                cases answer <;> exact blocks

end Bench

namespace Ledger

/-- What an offer tells about gaps is the case, a block with a gap does not fit, and nothing is
parked under a block that is there. Nothing is said about the predecessor of a detached block. And
a gap is no obstacle to fitting if the hash that is missing is zero, or the missing source an epoch
link: on these, no block depends. -/
structure GapsTruthful (setup : IntakeSetup) (tables : Tables) (now : Timestamp)
    (item : QueuedBlock) : Prop where
  previous : Told setup.constants tables now item.verified item.block .gapPrevious →
    ¬ Detached tables item.block → tables.blocks.get? item.block.previous = none
  source : Told setup.constants tables now item.verified item.block .gapSource →
    tables.blocks.get? (Bench.missingSource item.block) = none
  unfitPrevious : Told setup.constants tables now item.verified item.block .gapPrevious →
    ¬ Detached tables item.block → item.block.previous ≠ .zero →
      couldFit setup.constants tables item.block = .ok false
  unfitSource : Told setup.constants tables now item.verified item.block .gapSource →
    Bench.missingSource item.block ≠ .zero →
    (item.block.kind = .state → setup.constants.epochs.isEpochLink item.block.link = false) →
      couldFit setup.constants tables item.block = .ok false
  /-- Whatever has been parked before. -/
  parked : ∀ (bench : Bench Tables) parked key waiting, bench.store = { tables with parked } →
    ¬ Detached tables item.block →
    (bench.offer setup now item).2.store.parked.get? key = some waiting →
      parked.get? key = some waiting ∨
        (bench.offer setup now item).2.store.blocks.get? key.dependency = none

section Truth

variable {constants : LedgerConstants} {tables : Tables} {now : Timestamp} {hint : Verification}
  {block : Block}

theorem Told.absent_previous (told : Told constants tables now hint block .gapPrevious)
    (coherent : tables.Coherent constants) (attached : ¬ Detached tables block) :
    tables.blocks.get? block.previous = none :=
  (told.missing (by decide) coherent).resolve_right attached

theorem Told.absent_source (told : Told constants tables now hint block .gapSource)
    (coherent : tables.Coherent constants) :
    tables.blocks.get? (Bench.missingSource block) = none ∧ isSend tables block = .ok false :=
  told.missing (by decide) coherent

/-- What a block with a gap is parked under is not there. -/
theorem Told.absent_awaited {verdict : Verdict} {dependency : BlockHash}
    (told : Told constants tables now hint block verdict)
    (awaited : Bench.awaited? block verdict = some dependency)
    (coherent : tables.Coherent constants) (attached : ¬ Detached tables block) :
    tables.blocks.get? dependency = none := by
  cases verdict with
  | gapPrevious =>
      obtain rfl := Option.some.inj awaited
      exact told.absent_previous coherent attached
  | gapSource =>
      obtain rfl := Option.some.inj awaited
      exact (told.absent_source coherent).1
  | _ => exact nomatch awaited

end Truth

/-- In every state that a ledger gets into, what it says about gaps is true, and the intake parks
blocks only under what is missing. -/
theorem Reachable.gaps_truthful {setup : IntakeSetup} {tables : Tables}
    (reachable : Reachable setup.constants tables) (sound : setup.constants.Sound)
    (now : Timestamp) (item : QueuedBlock) : GapsTruthful setup tables now item where
  previous told attached := told.absent_previous (reachable.coherent sound) attached
  source told := (told.absent_source (reachable.coherent sound)).1
  unfitPrevious told attached named := by
    obtain ⟨source, depends⟩ := dependentBlocks_previous setup.constants tables item.block
    exact couldFit_of_missing depends (.inl rfl) named
      (told.absent_previous (reachable.coherent sound) attached)
  unfitSource told named unlinked := by
    obtain ⟨absent, keeps⟩ := told.absent_source (reachable.coherent sound)
    exact couldFit_of_missing (dependentBlocks_source keeps unlinked) (.inr rfl) named absent
  parked bench parked key waiting isStore attached found := by
    have coherent : bench.store.Coherent setup.constants :=
      isStore ▸ (reachable.coherent sound).reparked parked
    rcases Bench.parked_offer found with before | ⟨verdict, told, awaited, blocks⟩
    · rw [isStore] at before
      exact .inl before
    · right
      rw [blocks]
      refine told.absent_awaited awaited coherent ?_
      rwa [isStore]

section Development

open LedgerConstants

/-- The block names the genesis block as its predecessor, though its account has no chain. -/
def devDetached : Block :=
  { content := .state
      { account := ⟨7⟩, previous := dev.genesis.hash, representative := .zero, balance := .zero
        link := .zero }
    signature := .zero
    work := 0 }

/-- The block opens an account without a source. -/
def devSourceless : Block :=
  { content := .state
      { account := ⟨7⟩, previous := .zero, representative := .zero, balance := .zero
        link := .zero }
    signature := .zero
    work := 0 }

/-- The block opens an account with an epoch link as its source. -/
def devLinked : Block :=
  { content := .state
      { account := ⟨7⟩, previous := .zero, representative := .zero, balance := .ofNat 1
        link := epochLink "epoch v1 block" }
    signature := .zero
    work := 0 }

/-- The block changes the representative of no account. -/
def devRootless : Block :=
  { content := .change { previous := .zero, representative := ⟨8⟩ }
    signature := .zero
    work := 0 }

private theorem devGaps_evaluated :
    (((process .dev .zero .valid devDetached).run (started .dev .zero .empty none)).1
        = .ok ⟨.gapPrevious, .zero, .zero, .zero, .valid, .zero⟩ ∧
      ((process .dev .zero .valid devRootless).run (started .dev .zero .empty none)).1
        = .ok ⟨.gapPrevious, .zero, .zero, .zero, .valid, .zero⟩ ∧
      ((process .dev .zero .valid devSourceless).run (started .dev .zero .empty none)).1
        = .ok ⟨.gapSource, .zero, .zero, .zero, .valid, .zero⟩ ∧
      ((process .dev .zero .valid devLinked).run (started .dev .zero .empty none)).1
        = .ok ⟨.gapSource, .zero, .zero, .zero, .valid, .zero⟩) ∧
    (couldFit .dev (started .dev .zero .empty none) devRootless = .ok true ∧
      couldFit .dev (started .dev .zero .empty none) devSourceless = .ok true ∧
      couldFit .dev (started .dev .zero .empty none) devLinked = .ok true) ∧
    dev.epochs.isEpochLink .zero = false ∧ Bench.missingSource devLinked ≠ .zero := by
  decide +kernel

/-- The opening with an epoch link is told that it has a gap, and it has. -/
theorem devLinked_gaps_truthful :
    Told .dev (started .dev .zero .empty none) .zero .valid devLinked .gapSource ∧
    GapsTruthful ⟨.standard, .dev, ⟨0⟩⟩ (started .dev .zero .empty none) .zero
      ⟨⟨0, devLinked⟩, .zero, .zero, .valid⟩ :=
  ⟨⟨_, _, run_eq_leftBy devGaps_evaluated.1.2.2.2, rfl⟩,
    Reachable.gaps_truthful (.started .zero .empty none) dev_sound .zero _⟩

/-- Each of the exceptions is one: a detached block may have its predecessor, and be parked under
it; a block may fit though its missing predecessor or its missing source is zero, or its missing
source an epoch link. -/
theorem devGaps_untruthful :
    (¬ ∀ hint block, Told .dev (started .dev .zero .empty none) .zero hint block .gapPrevious →
      (started .dev .zero .empty none).blocks.get? block.previous = none) ∧
    (¬ ∀ item key waiting, (Bench.offer ⟨.standard, .dev, ⟨0⟩⟩ .zero item
        ⟨started .dev .zero .empty none, [], .zero⟩).2.store.parked.get? key = some waiting →
      (started .dev .zero .empty none).blocks.get? key.dependency = none) ∧
    (¬ ∀ hint block, Told .dev (started .dev .zero .empty none) .zero hint block .gapPrevious →
      ¬ Detached (started .dev .zero .empty none) block →
        couldFit .dev (started .dev .zero .empty none) block = .ok false) ∧
    (¬ ∀ hint block, Told .dev (started .dev .zero .empty none) .zero hint block .gapSource →
      (block.kind = .state → dev.epochs.isEpochLink block.link = false) →
        couldFit .dev (started .dev .zero .empty none) block = .ok false) ∧
    ¬ ∀ hint block, Told .dev (started .dev .zero .empty none) .zero hint block .gapSource →
      Bench.missingSource block ≠ .zero →
        couldFit .dev (started .dev .zero .empty none) block = .ok false := by
  obtain ⟨⟨detached, rootless, sourceless, linked⟩, ⟨rootlessFits, sourcelessFits, linkedFits⟩,
    unlinked, named⟩ := devGaps_evaluated
  have genesis : (started .dev .zero .empty none).blocks.get? dev.genesis.hash
      = some (storedGenesis .dev .zero) := genesis_started .zero .empty none
  refine ⟨fun claim => ?_, fun claim => ?_, fun claim => ?_, fun claim => ?_, fun claim => ?_⟩
  · have absent := claim .valid devDetached ⟨_, _, run_eq_leftBy detached, rfl⟩
    exact nomatch genesis.symm.trans absent
  · have absent := claim ⟨⟨0, devDetached⟩, .zero, .zero, .valid⟩ _ _
      (Bench.parked_previous (run_eq_leftBy detached) rfl)
    exact nomatch genesis.symm.trans absent
  · have unfit := claim .valid devRootless ⟨_, _, run_eq_leftBy rootless, rfl⟩
      fun detached => nomatch detached.1
    exact nomatch rootlessFits.symm.trans unfit
  · have unfit := claim .valid devSourceless ⟨_, _, run_eq_leftBy sourceless, rfl⟩
      fun _ => unlinked
    exact nomatch sourcelessFits.symm.trans unfit
  · have unfit := claim .valid devLinked ⟨_, _, run_eq_leftBy linked, rfl⟩ named
    exact nomatch linkedFits.symm.trans unfit

end Development

end Ledger

end AccountChains
