import AccountChains.Proofs.Ledger.Authenticity
import AccountChains.Proofs.Ledger.Ownership
import AccountChains.Proofs.Ledger.Watching

/-!
Contract: what the ledger makes of hints that are backed.

A hint replaces a check, so it is as good as the check only if the key behind it is
the key that has to be checked. Everything that the tables hold is traced to what has
been handed in: the owners of stored blocks, of heads and of frontiers, and what is
known about the blocks that are parked. Each single write keeps this. So every step
does, also one that fails half-way, and also if the genesis block is undone.

Owns: `Traced`, that offering a block and undoing one keep it, and that a receipt
tells nothing about a signature that is not backed. Does not own: the queues.
-/

namespace AccountChains

open BlockTable Tables

/-! ## What every step keeps -/

/-- A step keeps a property of the store, whether it comes to its end or not. -/
def Step.Keeps {σ α : Type} (holds : σ → Prop) (step : Step σ α) : Prop :=
  ∀ store, holds store → holds (step.run store).2

namespace Step.Keeps

variable {σ α β : Type} {holds : σ → Prop}

theorem pure (value : α) : Keeps holds (Pure.pure value : Step σ α) := fun _ held => held

theorem read (query : σ → Answer α) : Keeps holds (Step.read query) := fun _ held => held

theorem ofAnswer (answer : Answer α) : Keeps holds (Step.ofAnswer answer : Step σ α) :=
  fun _ held => held

theorem write {change : σ → σ} (keeps : ∀ store, holds store → holds (change store)) :
    Keeps holds (Step.write change) := keeps

theorem bind {first : Step σ α} {next : α → Step σ β} (keeps : Keeps holds first)
    (rest : ∀ value, Keeps holds (next value)) : Keeps holds (first >>= next) := by
  intro store held
  have middle := keeps store held
  rw [Step.run_bind]
  cases outcome : first.run store with
  | mk answer written =>
      rw [outcome] at middle
      cases answer with
      | ok value => exact rest value written middle
      | error fault => exact middle

theorem ite {condition : Prop} [Decidable condition] {left right : Step σ α}
    (leftKeeps : condition → Keeps holds left) (rightKeeps : ¬ condition → Keeps holds right) :
    Keeps holds (if condition then left else right) := by
  by_cases isSo : condition
  · rw [if_pos isSo]
    exact leftKeeps isSo
  · rw [if_neg isSo]
    exact rightKeeps isSo

end Step.Keeps

namespace Ledger

/-! ## Traced tables -/

/-- A block is signed by its account, or by one that was claimed to own it; an epoch block is
signed by the signer of its link. -/
def Supported (submissions : Submissions) (constants : LedgerConstants) (block : Block)
    (account : Account) (isEpoch : Bool) : Prop :=
  if isEpoch then
    ∃ signer, constants.epochs.signer? block.link = some signer ∧ block.isSignedBy signer
  else block.isSignedBy account ∨ submissions.Vouches block

/-- A block may be stored for an account. -/
structure Rooted (submissions : Submissions) (constants : LedgerConstants) (block : Block)
    (account : Account) (isEpoch : Bool) : Prop where
  submitted : block ∈ submissions.blocks
  owned : submissions.Owns block.hash account
  continues : block.previous ≠ .zero → submissions.Owns block.previous account
  supported : Supported submissions constants block account isEpoch

/-- Everything that the tables hold is traced to what has been handed in. -/
structure Traced (submissions : Submissions) (constants : LedgerConstants) (tables : Tables) :
    Prop where
  keyed : ∀ {hash stored}, tables.blocks.get? hash = some stored → stored.hash = hash
  rooted : ∀ {hash stored}, tables.blocks.get? hash = some stored →
    Rooted submissions constants stored.block stored.sideband.account
      stored.sideband.details.isEpoch
  heads : ∀ {account record}, tables.accounts.get? account = some record →
    submissions.Owns record.head account
  frontiers : ∀ {hash account}, tables.frontiers.get? hash = some account →
    submissions.Owns hash account
  parked : ∀ {key parked}, tables.parked.get? key = some parked →
    submissions.Attests constants.epochs parked.block parked.account parked.verified

namespace Traced

variable {submissions : Submissions} {constants : LedgerConstants} {tables next : Tables}
  (traced : Traced submissions constants tables)

include traced

/-- Tables that hold nothing new are traced. -/
theorem shrink
    (blocks : ∀ {hash stored}, next.blocks.get? hash = some stored →
      tables.blocks.get? hash = some stored)
    (accounts : ∀ {account record}, next.accounts.get? account = some record →
      tables.accounts.get? account = some record)
    (frontiers : ∀ {hash account}, next.frontiers.get? hash = some account →
      tables.frontiers.get? hash = some account)
    (parked : ∀ {key parked}, next.parked.get? key = some parked →
      tables.parked.get? key = some parked) : Traced submissions constants next where
  keyed found := traced.keyed (blocks found)
  rooted found := traced.rooted (blocks found)
  heads found := traced.heads (accounts found)
  frontiers found := traced.frontiers (frontiers found)
  parked found := traced.parked (parked found)

/-- A block that names no account has the owner of the legacy chain that it goes on with. -/
theorem owns_after {block : Block} {previous : BlockHash} {account : Account}
    (submitted : block ∈ submissions.blocks) (lineage : block.content.lineage = .after previous)
    (fronted : tables.frontiers.get? previous = some account) :
    submissions.Owns block.hash account :=
  .after submitted rfl lineage (traced.frontiers fronted)

theorem putBlock {stored : StoredBlock} (rooted : Rooted submissions constants stored.block
    stored.sideband.account stored.sideband.details.isEpoch) :
    Traced submissions constants (Store.putBlock stored tables) := by
  refine ⟨fun found => ?_, fun found => ?_, traced.heads, traced.frontiers, traced.parked⟩
  · rcases Table.of_get?_insert found with ⟨rfl, rfl⟩ | found
    · rfl
    · exact traced.keyed found
  · rcases Table.of_get?_insert found with ⟨-, rfl⟩ | found
    · exact rooted
    · exact traced.rooted found

theorem putAccount {account : Account} {record : AccountRecord}
    (owned : submissions.Owns record.head account) :
    Traced submissions constants (Store.putAccount account record tables) := by
  refine ⟨traced.keyed, traced.rooted, fun found => ?_, traced.frontiers, traced.parked⟩
  rcases Table.of_get?_insert found with ⟨rfl, rfl⟩ | found
  · exact owned
  · exact traced.heads found

theorem putFrontier {hash : BlockHash} {account : Account}
    (owned : submissions.Owns hash account) :
    Traced submissions constants (Store.putFrontier hash account tables) := by
  refine ⟨traced.keyed, traced.rooted, traced.heads, fun found => ?_, traced.parked⟩
  rcases Table.of_get?_insert found with ⟨rfl, rfl⟩ | found
  · exact owned
  · exact traced.frontiers found

theorem putParked {key : ParkedKey} {waiting : ParkedBlock}
    (attests : submissions.Attests constants.epochs waiting.block waiting.account
      waiting.verified) :
    Traced submissions constants (Store.putParked key waiting tables) := by
  refine ⟨traced.keyed, traced.rooted, traced.heads, traced.frontiers, fun found => ?_⟩
  rcases Table.of_get?_insert found with ⟨-, rfl⟩ | found
  · exact attests
  · exact traced.parked found

theorem removeBlock (hash : BlockHash) :
    Traced submissions constants (Store.removeBlock hash tables) :=
  traced.shrink Table.of_get?_erase id id id

theorem removeAccount (account : Account) :
    Traced submissions constants (Store.removeAccount account tables) :=
  traced.shrink id Table.of_get?_erase id id

theorem removeFrontier (hash : BlockHash) :
    Traced submissions constants (Store.removeFrontier hash tables) :=
  traced.shrink id id Table.of_get?_erase id

theorem removeParked (key : ParkedKey) :
    Traced submissions constants (Store.removeParked key tables) :=
  traced.shrink id id id Table.of_get?_erase

end Traced

/-! ## Writing -/

section Writing

variable {submissions : Submissions} {constants : LedgerConstants} {block : Block}
  {account : Account}

/-- Links, weights and what waits to be received tell nothing about owners. -/
theorem Traced.untold {tables next : Tables} (traced : Traced submissions constants tables)
    (blocks : next.blocks = tables.blocks) (accounts : next.accounts = tables.accounts)
    (frontiers : next.frontiers = tables.frontiers) (parked : next.parked = tables.parked) :
    Traced submissions constants next :=
  traced.shrink (blocks ▸ id) (accounts ▸ id) (frontiers ▸ id) (parked ▸ id)

theorem keeps_addWeight (representative : Account) (amount : Amount) :
    (addWeight representative amount).Keeps (Traced submissions constants) :=
  .bind (.read _) fun _ => .write fun _ traced => traced.untold rfl rfl rfl rfl

theorem keeps_subtractWeight (representative : Account) (amount : Amount) :
    (subtractWeight representative amount).Keeps (Traced submissions constants) :=
  .bind (.read _) fun _ => .write fun _ traced => traced.untold rfl rfl rfl rfl

theorem keeps_putReceivable (key : ReceivableKey) (receivable : Receivable) :
    (Step.write (Store.putReceivable key receivable)).Keeps (Traced submissions constants) :=
  .write fun _ traced => traced.untold rfl rfl rfl rfl

theorem keeps_removeReceivable (key : ReceivableKey) :
    (Step.write (Store.removeReceivable key)).Keeps (Traced submissions constants) :=
  .write fun _ traced => traced.untold rfl rfl rfl rfl

theorem keeps_currentRepresentative (record : AccountRecord) :
    (currentRepresentative record).Keeps (Traced submissions constants) := .read _

theorem keeps_nextHeight (record : AccountRecord) :
    (nextHeight record).Keeps (Traced submissions constants) := .ofAnswer _

theorem keeps_storeBlock {sideband : Sideband}
    (rooted : Rooted submissions constants block sideband.account sideband.details.isEpoch) :
    (storeBlock block sideband).Keeps (Traced submissions constants) :=
  .bind (.write fun _ traced => traced.putBlock rooted) fun _ =>
    .ite (fun _ => .write fun _ traced => traced.untold rfl rfl rfl rfl) fun _ => .pure ()

theorem keeps_updateAccount {record : AccountRecord}
    (owned : record.head ≠ .zero → submissions.Owns record.head account) :
    (updateAccount account record).Keeps (Traced submissions constants) := by
  refine .write fun tables traced => ?_
  split
  · exact traced.removeAccount account
  · next hasHead => exact traced.putAccount (owned (by simpa using hasHead))

theorem keeps_moveFrontier (owned : submissions.Owns block.hash account) :
    (moveFrontier block account).Keeps (Traced submissions constants) :=
  .bind (.write fun _ traced => traced.removeFrontier _) fun _ =>
    .write fun _ traced => traced.putFrontier owned

theorem keeps_dropFrontier (record : AccountRecord) :
    (dropFrontier record).Keeps (Traced submissions constants) :=
  .ite (fun _ => .bind (.read _) fun _ => .ite
    (fun _ => .write fun _ traced => traced.removeFrontier _) fun _ => .pure ()) fun _ => .pure ()

end Writing

/-! ## Taking in -/

section Taking

variable {submissions : Submissions} {constants : LedgerConstants} {tables : Tables}
  {hint : Verification} {block : Block} {entry : Entry} {account : Account}

theorem vouched_or_signed {vouched : Verification}
    (passed : isVouchedOrSigned hint vouched block account) :
    hint = vouched ∨ block.isSignedBy account := by
  simpa [isVouchedOrSigned] using passed

/-- A block that passes the check against its owner has a signature that backs this. -/
theorem backs_valid (backed : submissions.Backs constants.epochs block hint)
    (owned : submissions.Owns block.hash account)
    (passed : isVouchedOrSigned hint .valid block account) :
    submissions.Backs constants.epochs block .valid := by
  rcases vouched_or_signed passed with rfl | signed
  · exact backed
  · exact .owner owned signed

theorem backs_validEpoch (backed : submissions.Backs constants.epochs block hint)
    (passed : isVouchedOrSigned hint .validEpoch block
      ((constants.epochs.signer? block.link).getD .zero)) :
    submissions.Backs constants.epochs block .validEpoch := by
  rcases vouched_or_signed passed with rfl | signed
  · exact backed
  · exact .signer signed

/-- What is authorized with a hint that is backed is supported. -/
theorem supported_of_authorized {sideband : Sideband}
    (collisionFree : submissions.CollisionFree)
    (backed : submissions.Backs constants.epochs block hint)
    (owned : submissions.Owns block.hash sideband.account)
    (authorized : Authorized constants hint ⟨block, sideband⟩)
    (registered : sideband.details.isEpoch →
      ∃ signer, constants.epochs.signer? block.link = some signer) :
    Supported submissions constants block sideband.account sideband.details.isEpoch := by
  unfold Authorized at authorized
  unfold Supported
  cases isEpoch : sideband.details.isEpoch with
  | true =>
      rw [if_pos isEpoch] at authorized
      obtain ⟨signer, isSigner⟩ := registered isEpoch
      obtain ⟨⟩ | ⟨⟩ | ⟨⟩ | ⟨⟩ | signed := backs_validEpoch backed authorized
      rw [isSigner] at signed
      exact ⟨signer, isSigner, signed⟩
  | false =>
      rw [if_neg (by simp [isEpoch])] at authorized
      cases backs_valid backed owned authorized with
      | owner alsoOwned signed => exact .inl (alsoOwned.unique collisionFree owned ▸ signed)
      | vouched vouches => exact .inr vouches

/-- A block of a legacy chain has the owner of the chain. -/
theorem owned_of_follows {record : AccountRecord} (traced : Traced submissions constants tables)
    (submitted : block ∈ submissions.blocks)
    (follows : FollowsLegacy hint block tables account record)
    (lineage : block.content.lineage = .after block.previous) :
    submissions.Owns block.hash account ∧
      (block.previous ≠ .zero → submissions.Owns block.previous account) := by
  exact ⟨traced.owns_after submitted lineage follows.fronted,
    fun _ => traced.frontiers follows.fronted⟩

/-- A state block has the owner that it names, and so has the head that it follows. -/
theorem owned_of_continues {content : StateContent} {existing : Option AccountRecord}
    (traced : Traced submissions constants tables) (submitted : block ∈ submissions.blocks)
    (form : block.content = .state content) (continues : Continues tables content existing) :
    submissions.Owns block.hash content.account ∧
      (block.previous ≠ .zero → submissions.Owns block.previous content.account) := by
  refine ⟨.of_state submitted form, fun later => ?_⟩
  have previous : block.previous = _ := (Block.previous_of_form form).trans continues.previous
  have recorded := continues.recorded
  rw [previous] at later ⊢
  cases existing with
  | none => exact absurd rfl later
  | some record => exact traced.heads recorded

theorem owned_of_accepted (traced : Traced submissions constants tables)
    (submitted : block ∈ submissions.blocks)
    (accepted : Accepted constants hint block tables entry) (now : Timestamp) :
    submissions.Owns block.hash (entry.sideband now).account ∧
      (block.previous ≠ .zero →
        submissions.Owns block.previous (entry.sideband now).account) := by
  cases accepted with
  | send form follows | receive form follows | change form follows =>
      refine owned_of_follows traced submitted follows ?_
      rw [Block.previous_of_form form, form]
      rfl
  | opening form =>
      refine ⟨.of_opening submitted form, fun later => ?_⟩
      exact absurd (Block.previous_of_form form) later
  | outgoing form _ _ continues | standing form _ _ continues | incoming form _ _ continues
  | upgrade form _ _ continues => exact owned_of_continues traced submitted form continues

/-- A block that is accepted may be stored. -/
theorem rooted_of_accepted (collisionFree : submissions.CollisionFree)
    (traced : Traced submissions constants tables) (submitted : block ∈ submissions.blocks)
    (backed : submissions.Backs constants.epochs block hint)
    (accepted : Accepted constants hint block tables entry) (now : Timestamp) :
    Rooted submissions constants block (entry.sideband now).account
      (entry.sideband now).details.isEpoch := by
  obtain ⟨owned, continues⟩ := owned_of_accepted traced submitted accepted now
  refine ⟨submitted, owned, continues, supported_of_authorized collisionFree backed owned
    (authorized_of_accepted accepted now) fun isEpoch => ?_⟩
  cases accepted with
  | upgrade form _ _ _ _ _ leads =>
      obtain ⟨upgrade, found, -⟩ := Option.map_eq_some_iff.mp leads
      exact ⟨upgrade.signer, by
        rw [EpochLinks.signer?, Block.link_of_form form]
        exact congrArg (Option.map EpochUpgrade.signer) found⟩
  | _ => simp [Entry.sideband, legacySideband, BlockDetails.plain] at isEpoch

section Committing

variable {record : AccountRecord} (now : Timestamp)
  (rooted : Rooted submissions constants block account false)

include rooted

theorem keeps_commitSend (content : SendContent) :
    (commitSend block now account record content).Keeps (Traced submissions constants) := by
  unfold commitSend
  refine .bind (keeps_currentRepresentative _) fun representative => ?_
  refine .bind (keeps_subtractWeight _ _) fun _ => ?_
  refine .bind (keeps_nextHeight _) fun height => ?_
  refine .bind (keeps_storeBlock rooted) fun _ => ?_
  refine .bind (keeps_updateAccount fun _ => rooted.owned) fun _ => ?_
  exact .bind (keeps_putReceivable _ _) fun _ => keeps_moveFrontier rooted.owned

theorem keeps_commitReceive (content : ReceiveContent) (receivable : Receivable) :
    (commitReceive block now account record content receivable).Keeps
      (Traced submissions constants) := by
  unfold commitReceive
  refine .bind (keeps_removeReceivable _) fun _ => ?_
  refine .bind (keeps_nextHeight _) fun height => ?_
  refine .bind (keeps_storeBlock rooted) fun _ => ?_
  refine .bind (keeps_updateAccount fun _ => rooted.owned) fun _ => ?_
  refine .bind (keeps_currentRepresentative _) fun representative => ?_
  exact .bind (keeps_addWeight _ _) fun _ => keeps_moveFrontier rooted.owned

theorem keeps_commitChange (content : ChangeContent) :
    (commitChange block now account record content).Keeps (Traced submissions constants) := by
  unfold commitChange
  refine .bind (keeps_nextHeight _) fun height => ?_
  refine .bind (keeps_storeBlock rooted) fun _ => ?_
  refine .bind (keeps_currentRepresentative _) fun representative => ?_
  refine .bind (keeps_subtractWeight _ _) fun _ => ?_
  refine .bind (keeps_addWeight _ _) fun _ => ?_
  exact .bind (keeps_updateAccount fun _ => rooted.owned) fun _ => keeps_moveFrontier rooted.owned

omit rooted

theorem keeps_commitOpening {content : OpeningContent} (receivable : Receivable)
    (rooted : Rooted submissions constants block content.account false) :
    (commitOpening block now content receivable).Keeps (Traced submissions constants) := by
  unfold commitOpening
  refine .bind (keeps_removeReceivable _) fun _ => ?_
  refine .bind (keeps_storeBlock rooted) fun _ => ?_
  refine .bind (keeps_updateAccount fun _ => rooted.owned) fun _ => ?_
  exact .bind (keeps_addWeight _ _) fun _ => .write fun _ traced => traced.putFrontier rooted.owned

variable {content : StateContent} (existing : Option AccountRecord)

theorem keeps_settleTransfer (details : BlockDetails) (amount : Amount)
    (owned : submissions.Owns record.head content.account) :
    (settleTransfer block existing content details amount record).Keeps
      (Traced submissions constants) := by
  have closes : (updateAccount content.account record >>= fun _ =>
      dropFrontier (existing.getD .blank)).Keeps (Traced submissions constants) :=
    .bind (keeps_updateAccount fun _ => owned) fun _ => keeps_dropFrontier _
  unfold settleTransfer
  exact .ite (fun _ => .bind (keeps_putReceivable _ _) fun _ => closes) fun _ =>
    .ite (fun _ => .bind (keeps_removeReceivable _) fun _ => closes) fun _ => closes

theorem keeps_commitTransfer {details : BlockDetails} (amount : Amount) (sourceEpoch : Epoch)
    (rooted : Rooted submissions constants block content.account details.isEpoch) :
    (commitTransfer block now existing content details amount sourceEpoch).Keeps
      (Traced submissions constants) := by
  unfold commitTransfer
  refine .bind (keeps_nextHeight _) fun height => ?_
  refine .bind (keeps_storeBlock rooted) fun _ => ?_
  refine .ite (fun _ => ?_) fun _ => ?_
  · refine .bind (keeps_currentRepresentative _) fun representative => ?_
    refine .bind (keeps_subtractWeight _ _) fun _ => ?_
    exact .bind (keeps_addWeight _ _) fun _ => keeps_settleTransfer existing _ _ rooted.owned
  · exact .bind (keeps_addWeight _ _) fun _ => keeps_settleTransfer existing _ _ rooted.owned

theorem keeps_commitUpgrade (epoch : Epoch)
    (rooted : Rooted submissions constants block content.account true) :
    (commitUpgrade block now existing content epoch).Keeps (Traced submissions constants) := by
  unfold commitUpgrade
  refine .bind (keeps_nextHeight _) fun height => ?_
  refine .bind (keeps_storeBlock rooted) fun _ => ?_
  exact .bind (keeps_updateAccount fun _ => rooted.owned) fun _ => keeps_dropFrontier _

theorem keeps_commit (rooted : Rooted submissions constants block (entry.sideband now).account
      (entry.sideband now).details.isEpoch) :
    (entry.commit block now).Keeps (Traced submissions constants) := by
  cases entry with
  | send account record content => exact keeps_commitSend now rooted content
  | receive account record content receivable =>
      exact keeps_commitReceive now rooted content receivable
  | opening content receivable => exact keeps_commitOpening now receivable rooted
  | change account record content => exact keeps_commitChange now rooted content
  | transfer existing content details amount sourceEpoch =>
      exact keeps_commitTransfer now existing amount sourceEpoch rooted
  | upgrade existing content epoch => exact keeps_commitUpgrade now existing epoch rooted

end Committing

/-- Offering a block with a hint that is backed keeps everything traced. -/
theorem keeps_process (collisionFree : submissions.CollisionFree)
    (submitted : block ∈ submissions.blocks)
    (backed : submissions.Backs constants.epochs block hint) (now : Timestamp) :
    (process constants now hint block).Keeps (Traced submissions constants) := by
  intro tables traced
  rw [run_process]
  cases judged : judge constants hint block tables with
  | error fault => exact traced
  | ok judgement =>
      cases judgement with
      | refused receipt => exact traced
      | accepted entry =>
          have rooted := rooted_of_accepted collisionFree traced submitted backed
            (accepted_of_judge judged) now
          exact Step.Keeps.bind (keeps_commit now rooted) (fun _ => .pure _) tables traced

end Taking

/-! ## Undoing -/

/-- A reversal names only owners of what it goes back to. -/
structure Reversal.GoesBack (submissions : Submissions) (reversal : Reversal) : Prop where
  head : reversal.record.head ≠ .zero →
    submissions.Owns reversal.record.head reversal.account
  frontier : ∀ entry, reversal.addFrontier = some entry → submissions.Owns entry.1 entry.2

section Undoing

variable {submissions : Submissions} {constants : LedgerConstants} {tables : Tables}
  {account : Account} {record : AccountRecord} {head : StoredBlock} {hash : BlockHash}

theorem gives_required {α : Type} (value : Option α) (cause : LedgerError) :
    Gives (fun found => value = some found) (required value cause) := by
  cases value with
  | none => rintro found ⟨⟩
  | some found =>
      rintro _ ⟨⟩
      rfl

theorem gives_requiredBlock (hash : BlockHash) :
    Gives (fun found => tables.blocks.get? hash = some found) (requiredBlock tables hash) := by
  unfold requiredBlock
  exact .bind (.self _) fun found isStored => (Except.ok.inj isStored) ▸ gives_required found _

theorem gives_recordBefore (previousHash : BlockHash) (previous : StoredBlock) :
    Gives (fun before => ∃ found, before = some found ∧ found.1.head = previousHash)
      (some <$> recordBefore tables record previousHash previous) := by
  have isHead : Gives (fun found => found.1.head = previousHash)
      (recordBefore tables record previousHash previous) := by
    unfold recordBefore
    refine .bind (.self _) fun _ _ => .bind (.self _) fun _ _ => .bind (.self _) fun _ _ => ?_
    refine .ite (fun _ => ?_) fun _ => .pure rfl
    rintro found ⟨⟩
  exact .map isHead fun found isHead => ⟨found, rfl, isHead⟩

/-- Taking back a head goes back to the block before it, which has the same owner. -/
theorem gives_planUndo
    (owned : head.block.previous ≠ .zero → submissions.Owns head.block.previous account) :
    Gives (fun next => ∀ reversal, next = .reverse reversal → reversal.GoesBack submissions)
      (planUndo tables account record head) := by
  unfold planUndo
  dsimp only
  refine .ite (fun isFirst => ?_) fun later => ?_
  · refine .bind (.self _) fun previous isNone => ?_
    obtain rfl := Except.ok.inj isNone
    refine .bind (.self _) fun transfer _ => ?_
    split
    · exact .pure (by simp)
    · refine .bind (.self _) fun _ _ => .bind (.self _) fun before isNone => .pure ?_
      obtain rfl := Except.ok.inj isNone
      rintro reversal ⟨⟩
      exact ⟨by simp [AccountRecord.blank], by simp⟩
  · have previousOwned := owned (by simpa using later)
    have isThere : Gives (fun previous => ∃ found, previous = some found)
        (some <$> requiredBlock tables head.block.previous) :=
      .map (.self _) fun found _ => ⟨found, rfl⟩
    refine .bind isThere ?_
    rintro _ ⟨previous, rfl⟩
    refine .bind (.self _) fun transfer _ => ?_
    split
    · exact .pure (by simp)
    · refine .bind (.self _) fun _ _ => .bind (gives_recordBefore _ _) ?_
      rintro _ ⟨before, rfl, isHead⟩
      refine .pure ?_
      rintro reversal ⟨⟩
      refine ⟨fun _ => isHead ▸ previousOwned, fun entry isEntry => ?_⟩
      obtain ⟨-, isEntry⟩ := Option.ite_none_right_eq_some.mp isEntry
      obtain rfl := Option.some.inj isEntry
      exact previousOwned

theorem gives_nextUndo (collisionFree : submissions.CollisionFree)
    (traced : Traced submissions constants tables) :
    Gives (fun next => ∀ reversal, next.2 = .reverse reversal → reversal.GoesBack submissions)
      (nextUndo tables hash account) := by
  unfold nextUndo
  refine .bind (.self _) fun _ isStored => .bind (gives_required _ _) fun record isRecord => ?_
  obtain rfl := Except.ok.inj isStored
  refine .bind (gives_requiredBlock _) fun head found => ?_
  have rooted := traced.rooted found
  -- The head has the account in its sideband, and it has only one owner.
  have isHash : head.block.hash = record.head := traced.keyed found
  have isOwner : head.sideband.account = account :=
    (isHash ▸ rooted.owned).unique collisionFree (traced.heads isRecord)
  exact .bind (gives_planUndo (isOwner ▸ rooted.continues)) fun next goesBack => .pure goesBack

theorem keeps_writeFor {α : Type} {value : Option α} {change : α → Tables → Tables}
    (keeps : ∀ found, value = some found →
      (Step.write (change found)).Keeps (Traced submissions constants)) :
    (writeFor value change).Keeps (Traced submissions constants) := by
  cases value with
  | none => exact .pure ()
  | some found => exact keeps found rfl

section Reversing

variable {reversal : Reversal} (goesBack : reversal.GoesBack submissions)

include goesBack

theorem keeps_detach : reversal.detach.Keeps (Traced submissions constants) := by
  unfold Reversal.detach
  refine .bind (keeps_updateAccount goesBack.head) fun _ => ?_
  refine .bind (.write fun _ traced => traced.removeBlock _) fun _ => ?_
  refine .bind (keeps_writeFor fun _ _ => .write fun _ traced => traced.removeFrontier _)
    fun _ => ?_
  refine .bind (keeps_writeFor fun entry isEntry => .write fun _ traced =>
    traced.putFrontier (goesBack.frontier entry isEntry)) fun _ => ?_
  exact keeps_writeFor fun _ _ => .write fun _ traced => traced.untold rfl rfl rfl rfl

/-- Taking back a head keeps everything traced. -/
theorem keeps_apply : reversal.apply.Keeps (Traced submissions constants) := by
  unfold Reversal.apply
  refine .bind (keeps_writeFor fun _ _ => keeps_removeReceivable _) fun _ => ?_
  refine .bind (keeps_writeFor fun _ _ => keeps_putReceivable _ _) fun _ => ?_
  refine .bind (keeps_subtractWeight _ _) fun _ => ?_
  cases reversal.regainsWeight with
  | none => exact keeps_detach goesBack
  | some part => exact .bind (keeps_addWeight _ _) fun _ => keeps_detach goesBack

end Reversing

/-- However far undoing gets, everything is still traced. -/
theorem Traced.unwind (collisionFree : submissions.CollisionFree) (depth : Nat)
    (traced : Traced submissions constants tables) :
    Traced submissions constants (unwind depth hash account tables).store := by
  induction depth generalizing hash account tables with
  | zero => exact traced
  | succ depth inductionHypothesis =>
      unfold Ledger.unwind
      split
      · exact traced
      split
      · exact traced
      -- The head of the chain is taken back.
      · next head reversal isNext =>
          have goesBack := gives_nextUndo collisionFree traced _ isNext reversal rfl
          have applied := keeps_apply goesBack tables traced
          split
          · next outcome => rwa [outcome] at applied
          · next outcome =>
              rw [outcome] at applied
              exact inductionHypothesis applied
      -- The head of another chain goes first.
      · split
        · exact traced
        · dsimp only
          split
          · exact inductionHypothesis traced
          · exact inductionHypothesis (inductionHypothesis traced)

theorem Traced.rollback (collisionFree : submissions.CollisionFree)
    (traced : Traced submissions constants tables) (hash : BlockHash) :
    Traced submissions constants (rollback hash tables).store := by
  unfold Ledger.rollback
  split
  · exact traced
  · exact traced.unwind collisionFree _

end Undoing

/-! ## Receipts -/

/-- What a refusal tells about the signature is backed. -/
def Judgement.Backed (submissions : Submissions) (links : EpochLinks) (block : Block) :
    Judgement → Prop
  | .refused receipt => submissions.Backs links block receipt.verified
  | .accepted _ => True

section Refusing

variable {submissions : Submissions} {constants : LedgerConstants} {tables : Tables}
  {hint : Verification} {block : Block} (submitted : block ∈ submissions.blocks)
  (backed : submissions.Backs constants.epochs block hint)

include submitted backed

theorem backed_judgeSend (traced : Traced submissions constants tables) {content : SendContent}
    (form : block.content = .send content) :
    Gives (Judgement.Backed submissions constants.epochs block)
      (judgeSend hint block content tables) := by
  rw [judgeSend_eq hint tables form]
  refine gives_judgeAfter backed backed backed (fun _ => backed) fun account fronted =>
    .ite (fun _ => .pure backed) fun passed => .bind (.self _) fun record _ => ?_
  have owned := traced.owns_after submitted (by rw [Block.previous, form]; rfl) fronted
  have valid := backs_valid backed owned (by simpa using passed)
  exact .ite (fun _ => .pure valid) fun _ => .pure trivial

theorem backed_judgeReceive (traced : Traced submissions constants tables)
    {content : ReceiveContent} (form : block.content = .receive content) :
    Gives (Judgement.Backed submissions constants.epochs block)
      (judgeReceive hint block content tables) := by
  rw [judgeReceive_eq hint tables form]
  refine gives_judgeAfter backed backed backed (fun _ => backed) fun account fronted =>
    .ite (fun _ => .pure backed) fun passed => ?_
  have owned := traced.owns_after submitted (by rw [Block.previous, form]; rfl) fronted
  have valid := backs_valid backed owned (by simpa using passed)
  refine .ite (fun _ => .pure valid) fun _ => .bind (.self _) fun record _ => ?_
  refine .ite (fun _ => .pure valid) fun _ => .bind (.self _) fun receivable _ => ?_
  split
  case h_2 => exact .pure valid
  exact .ite (fun _ => .pure valid) fun _ => .pure trivial

theorem backed_judgeOpening {content : OpeningContent} (form : block.content = .opening content) :
    Gives (Judgement.Backed submissions constants.epochs block)
      (judgeOpening constants hint block content tables) := by
  unfold judgeOpening
  refine .ite (fun _ => .pure backed) fun _ => .ite (fun _ => .pure backed) fun passed => ?_
  have valid := backs_valid backed (.of_opening submitted form) (by simpa using passed)
  repeat' first
    | exact .pure valid
    | exact .pure trivial
    | refine .ite (fun _ => ?_) fun _ => ?_
    | refine .bind (.self _) fun _ _ => ?_
    | split

omit submitted in
theorem backed_judgeChange {content : ChangeContent} (form : block.content = .change content) :
    Gives (Judgement.Backed submissions constants.epochs block)
      (judgeChange hint block content tables) := by
  rw [judgeChange_eq hint tables form]
  refine gives_judgeAfter backed backed backed (fun _ => backed) fun account _ =>
    .bind (.self _) fun record _ => ?_
  exact .ite (fun _ => .pure backed) fun _ => .pure trivial

theorem backed_judgeTransfer {content : StateContent} (form : block.content = .state content) :
    Gives (Judgement.Backed submissions constants.epochs block)
      (judgeTransfer hint block content tables) := by
  unfold judgeTransfer
  refine .ite (fun _ => .pure backed) fun _ => .ite (fun _ => .pure backed) fun passed => ?_
  have valid := backs_valid backed (.of_state submitted form) (by simpa using passed)
  repeat' first
    | exact .pure valid
    | exact .pure trivial
    | refine .ite (fun _ => ?_) fun _ => ?_
    | refine .bind (.self _) fun _ _ => ?_
    | split

omit submitted in
theorem backed_judgeUpgrade {content : StateContent} (form : block.content = .state content) :
    Gives (Judgement.Backed submissions constants.epochs block)
      (judgeUpgrade constants hint block content tables) := by
  unfold judgeUpgrade
  refine .ite (fun _ => .pure backed) fun _ => .ite (fun _ => .pure backed) fun passed => ?_
  have link : block.link = content.link := Block.link_of_form form
  rw [← link] at passed
  have validEpoch := backs_validEpoch backed (by simpa using passed)
  repeat' first
    | exact .pure validEpoch
    | exact .pure trivial
    | refine .ite (fun _ => ?_) fun _ => ?_
    | refine .bind (.self _) fun _ _ => ?_
    | split

theorem backed_refuseEpochGap {content : StateContent} (form : block.content = .state content) :
    (refuseEpochGap constants hint block content).Backed submissions constants.epochs block := by
  have link : block.link = content.link := Block.link_of_form form
  -- The conditions are only ever rewritten: closing a goal by computation would run the checks.
  unfold refuseEpochGap
  by_cases isKnown : hint ≠ .unknown
  · simp only [if_pos isKnown]
    exact backed
  by_cases signed : block.isSignedBy content.account
  · simp only [if_neg isKnown, if_pos signed]
    exact .owner (.of_state submitted form) signed
  by_cases epochSigned : block.isSignedBy ((constants.epochs.signer? block.link).getD .zero)
  · simp only [if_neg isKnown, if_neg signed, ← link, if_pos epochSigned]
    exact .signer epochSigned
  · simp only [if_neg isKnown, if_neg signed, ← link, if_neg epochSigned]
    exact .invalid

theorem backed_judgeState {content : StateContent} (form : block.content = .state content) :
    Gives (Judgement.Backed submissions constants.epochs block)
      (judgeState constants hint block content tables) :=
  gives_judgeState (backed_judgeTransfer submitted backed form) (backed_judgeUpgrade backed form)
    fun _ => backed_refuseEpochGap submitted backed form

/-- Whatever judging tells about a signature is backed. -/
theorem backed_judge (traced : Traced submissions constants tables) :
    Gives (Judgement.Backed submissions constants.epochs block)
      (judge constants hint block tables) := by
  unfold judge
  cases form : block.content with
  | send content => exact backed_judgeSend submitted backed traced form
  | receive content => exact backed_judgeReceive submitted backed traced form
  | opening content => exact backed_judgeOpening submitted backed form
  | change content => exact backed_judgeChange backed form
  | state content => exact backed_judgeState submitted backed form

/-- What a receipt tells about the signature of a block that is not taken in is backed. -/
theorem backs_of_process (traced : Traced submissions constants tables) {now : Timestamp}
    {receipt : Receipt} {written : Tables}
    (returned : (process constants now hint block).run tables = (.ok receipt, written))
    (declined : receipt.verdict ≠ .progress) :
    submissions.Backs constants.epochs block receipt.verified := by
  have told := backed_judge submitted backed traced
  rw [run_process] at returned
  cases judged : judge constants hint block tables with
  | error fault => simp [judged] at returned
  | ok judgement =>
      rw [judged] at returned
      cases judgement with
      | refused other =>
          obtain ⟨rfl⟩ := Except.ok.inj (Prod.mk.inj returned).1
          exact told _ judged
      | accepted entry =>
          simp only [Step.run_bind] at returned
          cases committed : (entry.commit block now).run tables with
          | mk answer written =>
              rw [committed] at returned
              cases answer with
              | error fault => simp at returned
              | ok done =>
                  obtain ⟨rfl⟩ := Except.ok.inj (Prod.mk.inj returned).1
                  exact absurd entry.progresses declined

end Refusing

/-! ## The first state -/

section Starting

variable {submissions : Submissions} {constants : LedgerConstants}

/-- A ledger in which nothing is parked starts traced, if its genesis block is signed. -/
theorem traced_started (sound : constants.Sound)
    (signed : constants.genesis.isSignedBy constants.genesisAccount)
    (submitted : constants.genesis ∈ submissions.blocks) (now : Timestamp)
    (version : Option UInt32) :
    Traced submissions constants (started constants now .empty version) := by
  have owned : submissions.Owns constants.genesis.hash constants.genesisAccount := by
    obtain ⟨content, opens, account⟩ := sound.opens
    exact .own submitted rfl (by rw [opens, ← account]; rfl)
  refine ⟨fun found => ?_, fun found => ?_, fun found => ?_, fun found => ?_, fun found => ?_⟩
  · obtain ⟨rfl, rfl⟩ := (found_started now .empty version).mp found
    rfl
  · obtain ⟨-, rfl⟩ := (found_started now .empty version).mp found
    exact ⟨submitted, owned, fun later => absurd sound.previous_eq later, .inl signed⟩
  · obtain ⟨rfl, rfl⟩ := (recorded_started now .empty version).mp found
    exact owned
  · obtain ⟨rfl, rfl⟩ := (fronted_started now .empty version).mp found
    exact owned
  · exact nomatch found

/-- What is stored is authentic, or it is signed by an account that was claimed to own it. -/
theorem Traced.authentic_or_vouched {tables : Tables} {hash : BlockHash} {stored : StoredBlock}
    (traced : Traced submissions constants tables)
    (found : tables.blocks.get? hash = some stored) :
    Authentic constants stored ∨
      stored.sideband.details.isEpoch = false ∧ submissions.Vouches stored.block := by
  have supported := (traced.rooted found).supported
  unfold Supported at supported
  unfold Authentic
  cases isEpoch : stored.sideband.details.isEpoch with
  | true =>
      rw [isEpoch] at supported
      exact .inl supported
  | false =>
      rw [isEpoch] at supported
      exact supported.imp id fun vouched => ⟨rfl, vouched⟩

end Starting

end Ledger

end AccountChains
