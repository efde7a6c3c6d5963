import AccountChains.Proofs.Ledger.Growth
import AccountChains.Proofs.Ledger.Watching

/-!
Contract: what a call leaves behind that takes no block in.

A refusal is decided before anything is written, whatever the store holds. A block that
is stored already is refused as old, with any signature, work and hint: that also holds
for a state block with an epoch link, whose place is looked at before it is known to be
old, because the block before it is stored too.

A failure is another matter. Only a send looks up all it needs before it writes. Every
other kind of entry has lookups that come after its first write: if one of those fails,
what was written stays.

Owns: what refusals leave behind, and the errors that come too late. Does not own: which
of these errors a ledger gets into.
-/

namespace AccountChains

namespace Ledger

/-! ## Refused calls -/

section Refusing

variable {constants : LedgerConstants} {tables : Tables} {hint : Verification} {block : Block}
  {hash : BlockHash} {existing : StoredBlock}

/-- A block is old if it is stored, and if the block before it is stored as well: for an epoch
link its balance is looked up first. -/
theorem judge_old (here : tables.blocks.get? block.hash = some existing)
    (continues : block.previous ≠ .zero →
      ∃ before, tables.blocks.get? block.previous = some before) :
    judge constants hint block tables = .ok (refuse .old hint) := by
  have contains : Store.hasBlock tables block.hash = true := by
    simp [Store.hasBlock, Table.contains, here]
  unfold judge
  cases form : block.content with
  | send content => simp only [judgeSend, contains, if_true, pure, Except.pure]
  | receive content => simp only [judgeReceive, contains, if_true, pure, Except.pure]
  | opening content => simp only [judgeOpening, contains, if_true, pure, Except.pure]
  | change content => simp only [judgeChange, contains, if_true, pure, Except.pure]
  | state content =>
      have transfer : judgeTransfer hint block content tables = .ok (refuse .old hint) := by
        simp only [judgeTransfer, contains, if_true, pure, Except.pure]
      have upgrade : judgeUpgrade constants hint block content tables
          = .ok (refuse .old hint) := by
        simp only [judgeUpgrade, contains, if_true, pure, Except.pure]
      have previous : block.previous = content.previous := Block.previous_of_form form
      rw [previous] at continues
      simp only [judgeState, balance?, transfer, upgrade, stored, Store.block?, Except.mapError,
        bind, Except.bind, pure, Except.pure, ite_self, Identifier.isZero_iff]
      by_cases isFirst : content.previous = .zero
      · simp only [isFirst, if_true, ite_self]
      · obtain ⟨before, found⟩ := continues isFirst
        simp only [found, Option.map_some, ite_self]

/-- A copy of a stored block is old, and changes nothing. -/
theorem process_old (coherent : tables.Coherent constants) (sound : constants.Sound)
    (found : tables.blocks.get? hash = some existing)
    (copies : block.content = existing.block.content) (now : Timestamp) (hint : Verification) :
    (process constants now hint block).run tables
      = (.ok ⟨.old, .zero, .zero, .zero, hint, .zero⟩, tables) := by
  have sameHash : block.hash = hash := by
    rw [← coherent.hash_eq found]
    unfold StoredBlock.hash Block.hash
    rw [copies]
  have samePrevious : block.previous = existing.block.previous := by
    unfold Block.previous
    rw [copies]
  have continues (later : block.previous ≠ .zero) :
      ∃ before, tables.blocks.get? block.previous = some before := by
    rw [samePrevious] at later ⊢
    exact (coherent.later_block sound found later).imp fun _ follows => follows.1
  rw [run_process, judge_old (sameHash ▸ found) continues]
  rfl

/-- A refusal changes nothing, whatever the store holds; and a copy of a block that a ledger
has got stored is refused as old, however it is signed and whatever is said about it. -/
theorem refused_unwritten_and_old (sound : constants.Sound) :
    (∀ {σ : Type} [Store σ] (store written : σ) (now : Timestamp) (hint : Verification)
      (block : Block) (receipt : Receipt),
      (process constants now hint block).run store = (.ok receipt, written) →
        receipt.verdict ≠ .progress → written = store) ∧
    ∀ tables, Reachable constants tables → ∀ hash existing,
      tables.blocks.get? hash = some existing → ∀ block : Block,
        block.content = existing.block.content → ∀ now hint,
          (process constants now hint block).run tables
            = (.ok ⟨.old, .zero, .zero, .zero, hint, .zero⟩, tables) := by
  refine ⟨fun store written now hint block receipt returned isRefusal => ?_,
    fun tables reachable hash existing found block copies now hint =>
      process_old (reachable.coherent sound) sound found copies now hint⟩
  rw [run_process] at returned
  cases judged : judge constants hint block store with
  | error fault => simp [judged] at returned
  | ok judgement =>
      rw [judged] at returned
      cases judgement with
      | refused refusal => exact (Prod.mk.inj returned).2.symm
      | accepted entry =>
          -- An accepted block whose commit ends well is told that it made progress.
          simp only [Step.run_bind] at returned
          cases outcome : (entry.commit block now).run store with
          | mk answer middle =>
              rw [outcome] at returned
              cases answer with
              | error fault => simp at returned
              | ok done =>
                  obtain ⟨rfl⟩ := Except.ok.inj (Prod.mk.inj returned).1
                  exact absurd entry.progresses isRefusal

end Refusing

/-- The send again, with another signature and other work. -/
def devResend : Block := { devSend with signature := ⟨5⟩, work := 5 }

private theorem devOpening_early : ((process .dev .zero .valid devOpening).run
    (started .dev .zero .empty none)).1
      = .ok ⟨.gapSource, .zero, .zero, .zero, .valid, .zero⟩ := by
  decide +kernel

theorem devSend_kept : ∃ kept, devReceived.blocks.get? devSend.hash = some kept ∧
    devResend.content = kept.block.content := by
  have coherent := reachable_devSent.coherent dev_sound
  have sends : Grows .dev (started .dev .zero .empty none) ⟨.zero, .valid, devSend⟩ devSent :=
    ⟨_, devSend_progresses, rfl⟩
  have opens : Grows .dev devSent ⟨.zero, .valid, devOpening⟩ devReceived :=
    ⟨_, devOpening_progresses, rfl⟩
  obtain ⟨sideband, sent⟩ :=
    sends.found_next (coherent_started dev_sound .zero .empty none) dev_sound dev_named.1
  have named : Offer.hash ⟨.zero, .valid, devOpening⟩ ≠ .zero := dev_named.2
  exact ⟨_, (Progresses.next named opens (.done _)).found coherent dev_sound sent, rfl⟩

theorem devResend_old :
    leftBy (process .dev .zero .valid devOpening) (started .dev .zero .empty none)
        = started .dev .zero .empty none ∧
      (process .dev .zero .invalid devResend).run devReceived
        = (.ok ⟨.old, .zero, .zero, .zero, .invalid, .zero⟩, devReceived) := by
  constructor
  · exact (refused_unwritten_and_old dev_sound).1 _ _ .zero .valid devOpening _
      (run_eq_leftBy devOpening_early) (by decide)
  · obtain ⟨stored, found, content⟩ := devSend_kept
    exact (refused_unwritten_and_old dev_sound).2 devReceived reachable_devReceived devSend.hash
      stored found devResend content .zero .invalid

end Ledger

/-! ## Errors of steps -/

/-- Every error of a step is one of these. -/
def Step.ErrsOnly {σ α : Type} (allowed : LedgerError → Prop) (step : Step σ α) : Prop :=
  ∀ ⦃store written cause⦄, step.run store = (.error (.error cause), written) → allowed cause

/-- A step that ends with an error has written nothing, or the error is one of these. -/
def Step.SpoilsOnly {σ α : Type} (late : LedgerError → Prop) (step : Step σ α) : Prop :=
  ∀ ⦃store written cause⦄, step.run store = (.error (.error cause), written) →
    written = store ∨ late cause

/-- A step that writes nothing. -/
def Step.Inert {σ α : Type} (step : Step σ α) : Prop := ∀ store, (step.run store).2 = store

namespace Step

variable {σ α β : Type} {allowed late : LedgerError → Prop}

theorem Inert.read (query : σ → Answer α) : Inert (Step.read query) := fun _ => rfl

namespace ErrsOnly

theorem pure (value : α) : ErrsOnly allowed (Pure.pure value : Step σ α) := by
  rintro store written cause ⟨⟩

theorem write (change : σ → σ) : ErrsOnly allowed (Step.write change) := by
  rintro store written cause ⟨⟩

theorem read {query : σ → Answer α}
    (errs : ∀ {store cause}, query store = .error (.error cause) → allowed cause) :
    ErrsOnly allowed (Step.read query) :=
  fun _ _ _ failed => errs (Prod.mk.inj failed).1

theorem bind {first : Step σ α} {next : α → Step σ β} (errs : ErrsOnly allowed first)
    (rest : ∀ value, ErrsOnly allowed (next value)) : ErrsOnly allowed (first >>= next) := by
  intro store written cause failed
  rw [Step.run_bind] at failed
  cases outcome : first.run store with
  | mk answer middle =>
      rw [outcome] at failed
      cases answer with
      | ok value => exact rest value failed
      | error fault =>
          obtain ⟨rfl⟩ := Except.error.inj (Prod.mk.inj failed).1
          exact errs outcome

theorem ite {condition : Prop} [Decidable condition] {left right : Step σ α}
    (leftErrs : condition → ErrsOnly allowed left)
    (rightErrs : ¬ condition → ErrsOnly allowed right) :
    ErrsOnly allowed (if condition then left else right) := by
  by_cases isSo : condition
  · rw [if_pos isSo]
    exact leftErrs isSo
  · rw [if_neg isSo]
    exact rightErrs isSo

theorem mono {step : Step σ α} (errs : ErrsOnly allowed step)
    (weaker : ∀ {cause}, allowed cause → late cause) : ErrsOnly late step :=
  fun _ _ _ failed => weaker (errs failed)

theorem spoils {step : Step σ α} (errs : ErrsOnly late step) : SpoilsOnly late step :=
  fun _ _ _ failed => .inr (errs failed)

end ErrsOnly

namespace SpoilsOnly

/-- What writes nothing spoils nothing, and leaves the store to what follows. -/
theorem after {first : Step σ α} {next : α → Step σ β} (inert : Inert first)
    (rest : ∀ value, SpoilsOnly late (next value)) : SpoilsOnly late (first >>= next) := by
  intro store written cause failed
  rw [Step.run_bind] at failed
  have same := inert store
  cases outcome : first.run store with
  | mk answer middle =>
      rw [outcome] at failed same
      obtain rfl : middle = store := same
      cases answer with
      | ok value => exact rest value failed
      | error fault => exact .inl (Prod.mk.inj failed).2.symm

theorem before {first : Step σ α} {next : α → Step σ β} (spoils : SpoilsOnly late first)
    (rest : ∀ value, ErrsOnly late (next value)) : SpoilsOnly late (first >>= next) := by
  intro store written cause failed
  rw [Step.run_bind] at failed
  cases outcome : first.run store with
  | mk answer middle =>
      rw [outcome] at failed
      cases answer with
      | ok value => exact .inr (rest value failed)
      | error fault =>
          obtain ⟨⟨⟩, ⟨⟩⟩ := Prod.mk.inj failed
          exact spoils outcome

end SpoilsOnly

end Step

namespace Ledger

open Step

variable {σ : Type} [Store σ]

/-! ## Errors of a commit -/

/-- A record of the store cannot be read. -/
def Unreadable (cause : LedgerError) : Prop := ∃ error, cause = .storage error

/-- The representative of an account cannot be looked up. -/
def LacksRepresentative (record : AccountRecord) (cause : LedgerError) : Prop :=
  cause = .blockNotFound record.representativeBlock ∨ Unreadable cause

/-- The errors that an accepted block can end with after it was written in part. -/
def Entry.FailsLate : Entry → LedgerError → Prop
  | .send .., _ => False
  | .receive _ record .., cause | .change _ record _, cause
  | .transfer (some record) .., cause => LacksRepresentative record cause
  | .opening .., cause | .transfer none .., cause | .upgrade .., cause => Unreadable cause

theorem unreadable_of_stored {α : Type} {result : Except StoreError α} {cause : LedgerError}
    (failed : stored result = .error (.error cause)) : Unreadable cause := by
  cases result with
  | ok value => simp [stored, Except.mapError] at failed
  | error error =>
      simp only [stored, Except.mapError, Except.error.injEq, Fault.error.injEq] at failed
      exact ⟨error, failed.symm⟩

section Steps

variable {allowed : LedgerError → Prop}

omit [Store σ] in
theorem errs_nextHeight (record : AccountRecord) :
    ErrsOnly allowed (nextHeight record : Step σ UInt64) := by
  intro store written cause failed
  have answer := (Prod.mk.inj failed).1
  split at answer <;> simp at answer

theorem errs_storeBlock (block : Block) (sideband : Sideband) :
    ErrsOnly allowed (storeBlock block sideband : Step σ Unit) :=
  .bind (.write _) fun _ => .ite (fun _ => .write _) fun _ => .pure ()

theorem errs_moveFrontier (block : Block) (account : Account) :
    ErrsOnly allowed (moveFrontier block account : Step σ Unit) :=
  .bind (.write _) fun _ => .write _

theorem errs_addWeight (representative : Account) (amount : Amount) :
    ErrsOnly Unreadable (addWeight representative amount : Step σ Unit) :=
  .bind (.read unreadable_of_stored) fun _ => .write _

theorem errs_subtractWeight (representative : Account) (amount : Amount) :
    ErrsOnly Unreadable (subtractWeight representative amount : Step σ Unit) :=
  .bind (.read unreadable_of_stored) fun _ => .write _

theorem spoils_subtractWeight (representative : Account) (amount : Amount) :
    SpoilsOnly allowed (subtractWeight representative amount : Step σ Unit) :=
  .after (.read _) fun _ => (ErrsOnly.write _).spoils

theorem errs_dropFrontier (record : AccountRecord) :
    ErrsOnly Unreadable (dropFrontier record : Step σ Unit) :=
  .ite (fun _ => .bind (.read unreadable_of_stored) fun _ =>
    .ite (fun _ => .write _) fun _ => .pure ()) fun _ => .pure ()

theorem errs_currentRepresentative (record : AccountRecord) :
    ErrsOnly (LacksRepresentative record) (currentRepresentative record : Step σ Account) := by
  refine .read fun {store cause} failed => ?_
  unfold representativeOfBlock? at failed
  cases looked : stored (Store.block? store record.representativeBlock) with
  | error fault =>
      rw [looked] at failed
      obtain ⟨rfl⟩ := failed
      exact .inr (unreadable_of_stored looked)
  | ok found =>
      rw [looked] at failed
      cases named : found.bind fun found => found.block.representative? with
      | some representative =>
          simp [bind, Except.bind, pure, Except.pure, named, required] at failed
      | none =>
          simp only [bind, Except.bind, pure, Except.pure, named, required, inconsistent,
            Except.error.injEq, Fault.error.injEq] at failed
          exact .inl failed.symm

/-- The tail of a commit that only reads frontiers and weights. -/
theorem errs_settleTransfer (block : Block) (existing : Option AccountRecord)
    (content : StateContent) (details : BlockDetails) (amount : Amount) (record : AccountRecord) :
    ErrsOnly Unreadable
      (settleTransfer block existing content details amount record : Step σ Unit) := by
  have closes : ErrsOnly Unreadable (updateAccount content.account record >>= fun _ =>
      dropFrontier (existing.getD .blank) : Step σ Unit) :=
    .bind (.write _) fun _ => errs_dropFrontier _
  unfold settleTransfer
  exact .ite (fun _ => .bind (.write _) fun _ => closes) fun _ =>
    .ite (fun _ => .bind (.write _) fun _ => closes) fun _ => closes

end Steps

section Commits

variable {block : Block} (now : Timestamp) {account : Account} {record : AccountRecord}

/-- A send looks up its representative and the weight of it before it writes. -/
theorem spoils_commitSend (content : SendContent) :
    SpoilsOnly (fun _ => False)
      (commitSend block now account record content : Step σ Unit) := by
  unfold commitSend
  refine .after (.read _) fun representative => .before (spoils_subtractWeight _ _) fun _ => ?_
  refine .bind (errs_nextHeight _) fun height => .bind (errs_storeBlock _ _) fun _ => ?_
  exact .bind (.write _) fun _ => .bind (.write _) fun _ => errs_moveFrontier _ _

theorem errs_commitReceive (content : ReceiveContent) (receivable : Receivable) :
    ErrsOnly (LacksRepresentative record)
      (commitReceive block now account record content receivable : Step σ Unit) := by
  unfold commitReceive
  refine .bind (.write _) fun _ => .bind (errs_nextHeight _) fun height => ?_
  refine .bind (errs_storeBlock _ _) fun _ => .bind (.write _) fun _ => ?_
  refine .bind (errs_currentRepresentative _) fun representative => ?_
  exact .bind ((errs_addWeight _ _).mono .inr) fun _ => errs_moveFrontier _ _

theorem errs_commitOpening (content : OpeningContent) (receivable : Receivable) :
    ErrsOnly Unreadable (commitOpening block now content receivable : Step σ Unit) := by
  unfold commitOpening
  refine .bind (.write _) fun _ => .bind (errs_storeBlock _ _) fun _ => ?_
  exact .bind (.write _) fun _ => .bind (errs_addWeight _ _) fun _ => .write _

theorem errs_commitChange (content : ChangeContent) :
    ErrsOnly (LacksRepresentative record)
      (commitChange block now account record content : Step σ Unit) := by
  unfold commitChange
  refine .bind (errs_nextHeight _) fun height => .bind (errs_storeBlock _ _) fun _ => ?_
  refine .bind (errs_currentRepresentative _) fun representative => ?_
  refine .bind ((errs_subtractWeight _ _).mono .inr) fun _ => ?_
  refine .bind ((errs_addWeight _ _).mono .inr) fun _ => ?_
  exact .bind (.write _) fun _ => errs_moveFrontier _ _

theorem errs_commitTransfer (existing : Option AccountRecord) (content : StateContent)
    (details : BlockDetails) (amount : Amount) (sourceEpoch : Epoch) :
    ErrsOnly (Entry.transfer existing content details amount sourceEpoch).FailsLate
      (commitTransfer block now existing content details amount sourceEpoch : Step σ Unit) := by
  unfold commitTransfer
  refine .bind (errs_nextHeight _) fun height => .bind (errs_storeBlock _ _) fun _ => ?_
  cases existing with
  | none =>
      exact .bind (errs_addWeight _ _) fun _ =>
        errs_settleTransfer block none content details amount _
  | some record =>
      refine .bind (errs_currentRepresentative _) fun representative => ?_
      refine .bind ((errs_subtractWeight _ _).mono .inr) fun _ => ?_
      refine .bind ((errs_addWeight _ _).mono .inr) fun _ => ?_
      exact (errs_settleTransfer block (some record) content details amount _).mono .inr

theorem errs_commitUpgrade (existing : Option AccountRecord) (content : StateContent)
    (epoch : Epoch) :
    ErrsOnly Unreadable (commitUpgrade block now existing content epoch : Step σ Unit) := by
  unfold commitUpgrade
  refine .bind (errs_nextHeight _) fun height => .bind (errs_storeBlock _ _) fun _ => ?_
  exact .bind (.write _) fun _ => errs_dropFrontier _

/-- A commit that ends with an error has written nothing, or the lookup that failed comes after
the first write. -/
theorem spoils_commit (block : Block) (entry : Entry) :
    SpoilsOnly entry.FailsLate (entry.commit block now : Step σ Unit) := by
  cases entry with
  | send account record content => exact spoils_commitSend now content
  | receive account record content receivable =>
      exact (errs_commitReceive now content receivable).spoils
  | opening content receivable => exact (errs_commitOpening now content receivable).spoils
  | change account record content => exact (errs_commitChange now content).spoils
  | transfer existing content details amount sourceEpoch =>
      exact (errs_commitTransfer now existing content details amount sourceEpoch).spoils
  | upgrade existing content epoch =>
      exact (errs_commitUpgrade now existing content epoch).spoils

end Commits

/-! ## Failed calls -/

section Failing

variable {constants : LedgerConstants} {now : Timestamp} {hint : Verification} {block : Block}
  {store written : σ} {cause : LedgerError}

/-- Whatever the store holds: a call that ends with an error has written nothing, or the block
passed all its checks and is of a kind with a lookup, the one that failed, after its first
write. -/
theorem failed_unwritten_or_late
    (failed : (process constants now hint block).run store = (.error (.error cause), written)) :
    written = store ∨
      ∃ entry, judge constants hint block store = .ok (.accepted entry) ∧
        entry.FailsLate cause := by
  rw [run_process] at failed
  cases judged : judge constants hint block store with
  | error fault =>
      rw [judged] at failed
      exact .inl (Prod.mk.inj failed).2.symm
  | ok judgement =>
      rw [judged] at failed
      cases judgement with
      | refused receipt => simp at failed
      | accepted entry =>
          simp only [Step.run_bind] at failed
          cases outcome : (entry.commit block now).run store with
          | mk answer middle =>
              rw [outcome] at failed
              cases answer with
              | ok done => simp at failed
              | error fault =>
                  obtain ⟨⟨⟩, ⟨⟩⟩ := Prod.mk.inj failed
                  exact (spoils_commit now block entry outcome).imp_right
                    fun late => ⟨entry, rfl, late⟩

end Failing

section Development

/-- The genesis account names another representative. -/
def devRenaming : Block :=
  { content := .change { previous := LedgerConstants.dev.genesis.hash, representative := ⟨8⟩ }
    signature := .zero
    work := 0 }

/-- The first ledger, but the record of the genesis account leads to a block that is not there. -/
def devDamaged : Tables :=
  Store.putAccount LedgerConstants.dev.genesisAccount
    { genesisRecord .dev .zero with representativeBlock := ⟨5⟩ } (started .dev .zero .empty none)

private theorem devDamaged_evaluated :
    ((process .dev .zero .valid devSend).run devDamaged).1
        = .error (.error (.blockNotFound ⟨5⟩)) ∧
      ((process .dev .zero .valid devRenaming).run devDamaged).1
        = .error (.error (.blockNotFound ⟨5⟩)) ∧
      (leftBy (process .dev .zero .valid devRenaming) devDamaged).blocks.contains
        devRenaming.hash ∧
      devDamaged.blocks.contains devRenaming.hash = false := by
  decide +kernel

/-- The block is stored before its representative is looked for. -/
theorem devRenaming_half_written :
    ¬ ∀ (tables written : Tables) (now : Timestamp) (hint : Verification) (block : Block)
      (cause : LedgerError), (process .dev now hint block).run tables
        = (.error (.error cause), written) → written = tables := by
  intro unwritten
  obtain ⟨-, fails, stored, absent⟩ := devDamaged_evaluated
  have same := unwritten _ _ _ _ _ _ (run_eq_leftBy fails)
  simp [same, absent] at stored

theorem devSend_unwritten : (process .dev .zero .valid devSend).run devDamaged
    = (.error (.error (.blockNotFound ⟨5⟩)), devDamaged) := by
  obtain ⟨fails, -⟩ := devDamaged_evaluated
  have ran := run_eq_leftBy fails
  rcases failed_unwritten_or_late ran with same | ⟨entry, judged, late⟩
  · rwa [same] at ran
  · -- A block that is accepted is taken in as what it is.
    cases accepted_of_judge judged with
    | send => exact late.elim
    | receive form | opening form | change form | outgoing form | standing form | incoming form
    | upgrade form => cases form

end Development

end Ledger

end AccountChains
