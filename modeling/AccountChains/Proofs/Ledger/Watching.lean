import Mathlib.Data.List.Forall2
import Mathlib.Logic.Function.Basic
import AccountChains.Proofs.Ledger.Reachable

/-!
Contract: how weights are written on the way.

The ledger runs on any store, so it also runs on tables that keep an account of
every weight that is written. Such a run answers what a run on plain tables
answers and leaves the same tables behind. Every weight that it writes belongs to
one move: an amount is taken from a representative or given to one.

A call makes the moves that its block calls for, one after another. A call that
does not come to its end stops between two moves.

Owns: watched tables, the moves of entries and reversals, and that the ledger
makes these moves. Does not own: whether a move stays in the range of amounts.
-/

namespace AccountChains

open BlockTable Tables

/-- A weight is written in the place of another one. -/
structure WeightChange where
  representative : Account
  before : Amount
  after : Amount
deriving DecidableEq, Repr

/-- Tables with the weights that were written to them, the first one first. -/
structure Watched where
  tables : Tables
  changes : List WeightChange

namespace Watched

instance : Store Watched where
  account? watched := Store.account? watched.tables
  accounts watched := Store.accounts watched.tables
  block? watched := Store.block? watched.tables
  hasBlock watched := Store.hasBlock watched.tables
  successor? watched := Store.successor? watched.tables
  receivable? watched := Store.receivable? watched.tables
  receivables watched := Store.receivables watched.tables
  frontier? watched := Store.frontier? watched.tables
  weight watched := Store.weight watched.tables
  weights watched := Store.weights watched.tables
  parked watched := Store.parked watched.tables
  hasParked watched := Store.hasParked watched.tables
  version? watched := Store.version? watched.tables
  counts watched := Store.counts watched.tables
  putAccount account record watched :=
    { watched with tables := Store.putAccount account record watched.tables }
  removeAccount account watched :=
    { watched with tables := Store.removeAccount account watched.tables }
  putBlock stored watched := { watched with tables := Store.putBlock stored watched.tables }
  removeBlock hash watched := { watched with tables := Store.removeBlock hash watched.tables }
  putSuccessor hash next watched :=
    { watched with tables := Store.putSuccessor hash next watched.tables }
  removeSuccessor hash watched :=
    { watched with tables := Store.removeSuccessor hash watched.tables }
  putReceivable key record watched :=
    { watched with tables := Store.putReceivable key record watched.tables }
  removeReceivable key watched :=
    { watched with tables := Store.removeReceivable key watched.tables }
  putFrontier hash account watched :=
    { watched with tables := Store.putFrontier hash account watched.tables }
  removeFrontier hash watched :=
    { watched with tables := Store.removeFrontier hash watched.tables }
  putWeight representative weight watched :=
    { tables := Store.putWeight representative weight watched.tables
      changes := watched.changes
        ++ [⟨representative, watched.tables.weight representative, weight⟩] }
  putParked key record watched :=
    { watched with tables := Store.putParked key record watched.tables }
  removeParked key watched := { watched with tables := Store.removeParked key watched.tables }
  putVersion version watched :=
    { watched with tables := Store.putVersion version watched.tables }

end Watched

/-! ## Moves -/

/-- An amount of weight that is taken from a representative or given to one. -/
inductive WeightMove where
  | taken (representative : Account) (amount : Amount)
  | given (representative : Account) (amount : Amount)
deriving DecidableEq, Repr

namespace WeightMove

/-- The weight that a move writes, as the ledger computes it. -/
def change (weight : Account → Amount) : WeightMove → WeightChange
  | .taken representative amount =>
    ⟨representative, weight representative, (weight representative).wrappingSub amount⟩
  | .given representative amount =>
    ⟨representative, weight representative, (weight representative).wrappingAdd amount⟩

/-- The weights after some moves. -/
def moved (weight : Account → Amount) : List WeightMove → Account → Amount
  | [] => weight
  | move :: rest =>
    moved (Function.update weight (move.change weight).representative (move.change weight).after)
      rest

/-- What some moves write, one after another. -/
def trail (weight : Account → Amount) : List WeightMove → List WeightChange
  | [] => []
  | move :: rest =>
    move.change weight :: trail
      (Function.update weight (move.change weight).representative (move.change weight).after) rest

variable (weight : Account → Amount) (first second : List WeightMove)

theorem moved_append : moved weight (first ++ second) = moved (moved weight first) second := by
  induction first generalizing weight with
  | nil => rfl
  | cons move rest inductionHypothesis => exact inductionHypothesis _

theorem trail_append :
    trail weight (first ++ second) = trail weight first ++ trail (moved weight first) second := by
  induction first generalizing weight with
  | nil => rfl
  | cons move rest inductionHypothesis =>
      exact congrArg (List.cons _) (inductionHypothesis _)

theorem length_trail : (trail weight first).length = first.length := by
  induction first generalizing weight with
  | nil => rfl
  | cons move rest inductionHypothesis => exact congrArg Nat.succ (inductionHypothesis _)

end WeightMove

theorem Tables.weight_putWeight_eq_update (representative : Account) (amount : Amount)
    (tables : Tables) : (tables.putWeight representative amount).weight
      = Function.update tables.weight representative amount := by
  funext probe
  rw [weight_putWeight, Function.update_apply]

namespace Ledger

open WeightMove

/-- The representative that an account votes for by its record. -/
def voted (blocks : BlockTable) (record : AccountRecord) : Account :=
  (representativeOf blocks record).getD .zero

/-- The moves of an accepted block. -/
def Entry.moves (blocks : BlockTable) : Entry → List WeightMove
  | .send _ record content =>
    [.taken (voted blocks record) (record.balance.wrappingSub content.balance)]
  | .receive _ record _ receivable => [.given (voted blocks record) receivable.amount]
  | .opening content receivable => [.given content.representative receivable.amount]
  | .change _ record content =>
    [.taken (voted blocks record) record.balance, .given content.representative record.balance]
  | .transfer existing content _ _ _ =>
    (existing.map fun record => WeightMove.taken (voted blocks record) record.balance).toList
      ++ [.given content.representative content.balance]
  | .upgrade _ _ _ => []

/-- The moves that take a head back. -/
def Reversal.moves (reversal : Reversal) : List WeightMove :=
  .taken reversal.losesWeight.1 reversal.losesWeight.2
    :: (reversal.regainsWeight.map fun part => WeightMove.given part.1 part.2).toList

/-! ## Steps on watched tables -/

section Watching

variable {α β : Type} {tables written : Tables} {first : Step Watched α}
  {plainFirst : Step Tables α} {next : α → Step Watched β} {plainNext : α → Step Tables β}
  {value : α} {planned others : List WeightMove}

/-- A step writes no weights, and does to watched tables what it does to plain ones. -/
structure Silent (watched : Step Watched α) (plain : Step Tables α) : Prop where
  run : ∀ tables changes, watched.run ⟨tables, changes⟩
    = ((plain.run tables).1, ⟨(plain.run tables).2, changes⟩)
  weight : ∀ tables, (plain.run tables).2.weight = tables.weight

/-- A step writes weights by some moves, and does to watched tables what it does to plain ones. -/
structure Makes (tables : Tables) (watched : Step Watched α) (plain : Step Tables α)
    (moves : List WeightMove) : Prop where
  run : ∀ changes, watched.run ⟨tables, changes⟩
    = ((plain.run tables).1, ⟨(plain.run tables).2, changes ++ trail tables.weight moves⟩)
  weight : (plain.run tables).2.weight = moved tables.weight moves

/-- A step makes the planned moves, or stops on the way without an answer. -/
def Performs (tables : Tables) (watched : Step Watched α) (plain : Step Tables α)
    (planned : List WeightMove) : Prop :=
  ∃ moves, moves <+: planned ∧ Makes tables watched plain moves ∧
    ∀ value, (plain.run tables).1 = .ok value → moves = planned

theorem Silent.bind (silent : Silent first plainFirst)
    (rest : ∀ value, Silent (next value) (plainNext value)) :
    Silent (first >>= next) (plainFirst >>= plainNext) := by
  refine ⟨fun tables changes => ?_, fun tables => ?_⟩
  · rw [Step.run_bind, Step.run_bind, silent.run]
    cases outcome : plainFirst.run tables with
    | mk answer written => cases answer with
      | error fault => rfl
      | ok value => exact (rest value).run written changes
  · have kept := silent.weight tables
    rw [Step.run_bind]
    cases outcome : plainFirst.run tables with
    | mk answer written =>
        rw [outcome] at kept
        cases answer with
        | error fault => exact kept
        | ok value => exact ((rest value).weight written).trans kept

theorem Silent.performs (silent : Silent first plainFirst) (tables : Tables) :
    Performs tables first plainFirst [] := by
  refine ⟨[], List.prefix_rfl, ⟨fun changes => ?_, silent.weight tables⟩, fun _ _ => rfl⟩
  rw [silent.run, trail, List.append_nil]

/-- The moves of a step come before the moves of the steps after it. -/
theorem Performs.bind (performs : Performs tables first plainFirst planned)
    (rest : ∀ value written, plainFirst.run tables = (.ok value, written) →
      Performs written (next value) (plainNext value) others) :
    Performs tables (first >>= next) (plainFirst >>= plainNext) (planned ++ others) := by
  obtain ⟨moves, isPrefix, makes, complete⟩ := performs
  have run := makes.run
  have weight := makes.weight
  simp only [Performs]
  cases outcome : plainFirst.run tables with
  | mk answer written =>
      rw [outcome] at run weight complete
      cases answer with
      | error fault =>
          refine ⟨moves, isPrefix.trans (List.prefix_append _ _), ⟨fun changes => ?_, ?_⟩, ?_⟩
          · rw [Step.run_bind, Step.run_bind, run, outcome]
          · rw [Step.run_bind, outcome]
            exact weight
          · rw [Step.run_bind, outcome]
            rintro value ⟨⟩
      | ok value =>
          obtain rfl := complete value rfl
          obtain ⟨further, furtherPrefix, furtherMakes, furtherComplete⟩ :=
            rest value written outcome
          refine ⟨moves ++ further, (List.prefix_append_right_inj moves).mpr furtherPrefix,
            ⟨fun changes => ?_, ?_⟩, ?_⟩
          · rw [Step.run_bind, Step.run_bind, run, outcome]
            simp only
            rw [furtherMakes.run, trail_append, ← weight, List.append_assoc]
          · rw [Step.run_bind, outcome, moved_append, ← weight]
            exact furtherMakes.weight
          · rw [Step.run_bind, outcome]
            exact fun answered answers => congrArg _ (furtherComplete answered answers)

/-- A step that writes no weights may come first. -/
theorem Silent.before (silent : Silent first plainFirst)
    (succeeds : plainFirst.run tables = (.ok value, written))
    (rest : Performs written (next value) (plainNext value) planned) :
    Performs tables (first >>= next) (plainFirst >>= plainNext) planned := by
  refine (silent.performs tables).bind fun other left outcome => ?_
  rw [succeeds] at outcome
  obtain ⟨same, rfl⟩ := Prod.mk.inj outcome
  obtain rfl := Except.ok.inj same
  exact rest

theorem performs_addWeight (representative : Account) (amount : Amount) (tables : Tables) :
    Performs tables (addWeight representative amount) (addWeight representative amount)
      [.given representative amount] :=
  ⟨_, List.prefix_rfl, ⟨fun _ => rfl, weight_putWeight_eq_update _ _ _⟩, fun _ _ => rfl⟩

theorem performs_subtractWeight (representative : Account) (amount : Amount) (tables : Tables) :
    Performs tables (subtractWeight representative amount) (subtractWeight representative amount)
      [.taken representative amount] :=
  ⟨_, List.prefix_rfl, ⟨fun _ => rfl, weight_putWeight_eq_update _ _ _⟩, fun _ _ => rfl⟩

theorem silent_pure (value : α) : Silent (pure value) (pure value) :=
  ⟨fun _ _ => rfl, fun _ => rfl⟩

theorem silent_nextHeight (record : AccountRecord) :
    Silent (nextHeight record) (nextHeight record) :=
  ⟨fun _ _ => rfl, fun _ => rfl⟩

theorem silent_currentRepresentative (record : AccountRecord) :
    Silent (currentRepresentative record) (currentRepresentative record) :=
  ⟨fun _ _ => rfl, fun _ => rfl⟩

theorem silent_storeBlock (block : Block) (sideband : Sideband) :
    Silent (storeBlock block sideband) (storeBlock block sideband) := by
  unfold storeBlock
  cases block.previous.isZero <;> exact ⟨fun _ _ => rfl, fun _ => rfl⟩

theorem silent_updateAccount (account : Account) (record : AccountRecord) :
    Silent (updateAccount account record) (updateAccount account record) := by
  unfold updateAccount
  cases record.head.isZero <;> exact ⟨fun _ _ => rfl, fun _ => rfl⟩

theorem silent_moveFrontier (block : Block) (account : Account) :
    Silent (moveFrontier block account) (moveFrontier block account) :=
  ⟨fun _ _ => rfl, fun _ => rfl⟩

theorem silent_dropFrontier (record : AccountRecord) :
    Silent (dropFrontier record) (dropFrontier record) := by
  unfold dropFrontier
  cases record.head.isZero with
  | true => exact silent_pure ()
  | false =>
      refine .bind ⟨fun _ _ => rfl, fun _ => rfl⟩ fun frontier => ?_
      cases frontier.isSome with
      | true => exact ⟨fun _ _ => rfl, fun _ => rfl⟩
      | false => exact silent_pure ()

theorem silent_writeFor (value : Option α) (change : α → Watched → Watched)
    (plainChange : α → Tables → Tables)
    (silent : ∀ found, Silent (.write (change found)) (.write (plainChange found))) :
    Silent (writeFor value change) (writeFor value plainChange) := by
  cases value with
  | none => exact silent_pure ()
  | some found => exact silent found

end Watching

/-! ## Moves of a commit -/

section Rests

variable {σ : Type} [Store σ]

/-- What a transfer does after the weights are written. -/
def settleTransfer (block : Block) (existing : Option AccountRecord) (content : StateContent)
    (details : BlockDetails) (amount : Amount) (record : AccountRecord) : Step σ Unit := do
  if details.isSend then
    Step.write (Store.putReceivable ⟨content.link.asAccount, block.hash⟩
      ⟨content.account, amount, details.epoch⟩)
  else if !content.link.isZero then
    Step.write (Store.removeReceivable ⟨content.account, content.link.asBlockHash⟩)
  updateAccount content.account record
  dropFrontier (existing.getD .blank)

/-- What taking a block back does after the weights are written. -/
def Reversal.detach (reversal : Reversal) : Step σ Unit := do
  updateAccount reversal.account reversal.record
  Step.write (Store.removeBlock reversal.hash)
  writeFor reversal.removeFrontier Store.removeFrontier
  writeFor reversal.addFrontier fun entry => Store.putFrontier entry.1 entry.2
  writeFor reversal.clearSuccessor Store.removeSuccessor

end Rests

section Commits

variable {constants : LedgerConstants} {hint : Verification} {block : Block} {tables : Tables}
  (coherent : tables.Coherent constants) (now : Timestamp)

private theorem performs_give {representative : Account} {amount : Amount}
    {rest : Step Watched Unit} {plainRest : Step Tables Unit} (tables : Tables)
    (silent : Silent rest plainRest) :
    Performs tables (addWeight representative amount >>= fun _ => rest)
      (addWeight representative amount >>= fun _ => plainRest) [.given representative amount] :=
  (performs_addWeight representative amount tables).bind fun _ written _ => silent.performs written

private theorem performs_take {representative : Account} {amount : Amount}
    {rest : Step Watched Unit} {plainRest : Step Tables Unit} {planned : List WeightMove}
    (performs : ∀ written, Performs written rest plainRest planned) (tables : Tables) :
    Performs tables (subtractWeight representative amount >>= fun _ => rest)
      (subtractWeight representative amount >>= fun _ => plainRest)
      (.taken representative amount :: planned) :=
  (performs_subtractWeight representative amount tables).bind fun _ written _ => performs written

private theorem performs_counted (record : AccountRecord) {next : UInt64 → Step Watched Unit}
    {plainNext : UInt64 → Step Tables Unit} {planned : List WeightMove}
    (performs : ∀ height, Performs tables (next height) (plainNext height) planned) :
    Performs tables (nextHeight record >>= next) (nextHeight record >>= plainNext) planned := by
  refine ((silent_nextHeight record).performs tables).bind fun height written counted => ?_
  obtain ⟨-, rfl⟩ := Prod.mk.inj counted
  exact performs height

include coherent

theorem performs_commitSend {account : Account} {record : AccountRecord} {content : SendContent}
    (accepted : Accepted constants hint block tables (.send account record content)) :
    Performs tables (commitSend block now account record content)
      (commitSend block now account record content)
      (Entry.moves tables.blocks (.send account record content)) := by
  obtain ⟨head, recorded⟩ := accepted.head_recorded coherent now rfl
  obtain ⟨representative, leads⟩ := recorded.leads
  simp only [Entry.moves, voted, leads, Option.getD_some]
  unfold commitSend
  refine (silent_currentRepresentative record).before (run_currentRepresentative _ leads) ?_
  refine performs_take (fun written => Silent.performs ?_ written) tables
  refine (silent_nextHeight record).bind fun height => ?_
  refine (silent_storeBlock _ _).bind fun _ => ?_
  refine (silent_updateAccount _ _).bind fun _ => ?_
  refine .bind ⟨fun _ _ => rfl, fun _ => rfl⟩ fun _ => ?_
  exact silent_moveFrontier block account

variable (named : block.hash ≠ .zero)

include named

theorem performs_commitReceive {account : Account} {record : AccountRecord}
    {content : ReceiveContent} {receivable : Receivable}
    (accepted : Accepted constants hint block tables
      (.receive account record content receivable)) :
    Performs tables (commitReceive block now account record content receivable)
      (commitReceive block now account record content receivable)
      (Entry.moves tables.blocks (.receive account record content receivable)) := by
  obtain ⟨head, recorded⟩ := accepted.head_recorded coherent now rfl
  obtain ⟨representative, leads⟩ := recorded.leads
  simp only [Entry.moves, voted, leads, Option.getD_some]
  unfold commitReceive
  refine Silent.before ⟨fun _ _ => rfl, fun _ => rfl⟩ rfl ?_
  refine performs_counted record fun height => ?_
  refine (silent_storeBlock _ _).before (run_storeBlock _ _) ?_
  refine (silent_updateAccount _ _).before (run_updateAccount named) ?_
  refine (silent_currentRepresentative record).before
    (run_currentRepresentative representative (leads_insert accepted.fresh leads)) ?_
  exact performs_give _ (silent_moveFrontier block account)

omit coherent in
theorem performs_commitOpening (content : OpeningContent) (receivable : Receivable) :
    Performs tables (commitOpening block now content receivable)
      (commitOpening block now content receivable)
      (Entry.moves tables.blocks (.opening content receivable)) := by
  unfold commitOpening
  refine Silent.before ⟨fun _ _ => rfl, fun _ => rfl⟩ rfl ?_
  refine (silent_storeBlock _ _).before (run_storeBlock _ _) ?_
  refine (silent_updateAccount _ _).before (run_updateAccount named) ?_
  exact performs_give _ ⟨fun _ _ => rfl, fun _ => rfl⟩

omit named in
theorem performs_commitChange {account : Account} {record : AccountRecord}
    {content : ChangeContent}
    (accepted : Accepted constants hint block tables (.change account record content)) :
    Performs tables (commitChange block now account record content)
      (commitChange block now account record content)
      (Entry.moves tables.blocks (.change account record content)) := by
  obtain ⟨head, recorded⟩ := accepted.head_recorded coherent now rfl
  obtain ⟨representative, leads⟩ := recorded.leads
  simp only [Entry.moves, voted, leads, Option.getD_some]
  unfold commitChange
  refine performs_counted record fun height => ?_
  refine (silent_storeBlock _ _).before (run_storeBlock _ _) ?_
  refine (silent_currentRepresentative record).before
    (run_currentRepresentative representative (leads_insert accepted.fresh leads)) ?_
  refine performs_take (fun written => performs_give written ?_) _
  exact (silent_updateAccount _ _).bind fun _ => silent_moveFrontier block account

omit coherent named in
private theorem silent_settleTransfer (existing : Option AccountRecord) (content : StateContent)
    (details : BlockDetails) (amount : Amount) (record : AccountRecord) :
    Silent (settleTransfer block existing content details amount record)
      (settleTransfer block existing content details amount record) := by
  have closes : Silent (updateAccount content.account record >>= fun _ =>
      dropFrontier (existing.getD .blank)) (updateAccount content.account record >>= fun _ =>
      dropFrontier (existing.getD .blank)) :=
    (silent_updateAccount _ _).bind fun _ => silent_dropFrontier _
  unfold settleTransfer
  cases details.isSend with
  | true => exact .bind ⟨fun _ _ => rfl, fun _ => rfl⟩ fun _ => closes
  | false => cases content.link.isZero with
    | true => exact closes
    | false => exact .bind ⟨fun _ _ => rfl, fun _ => rfl⟩ fun _ => closes

omit named in
theorem performs_commitTransfer {existing : Option AccountRecord} {content : StateContent}
    {details : BlockDetails} {amount : Amount} {sourceEpoch : Epoch}
    (accepted : Accepted constants hint block tables
      (.transfer existing content details amount sourceEpoch)) :
    Performs tables (commitTransfer block now existing content details amount sourceEpoch)
      (commitTransfer block now existing content details amount sourceEpoch)
      (Entry.moves tables.blocks (.transfer existing content details amount sourceEpoch)) := by
  unfold commitTransfer
  refine performs_counted (existing.getD .blank) fun height => ?_
  refine (silent_storeBlock _ _).before (run_storeBlock _ _) ?_
  cases existing with
  | none => exact performs_give _ (silent_settleTransfer none content details amount _)
  | some record =>
      obtain ⟨head, recorded⟩ := accepted.head_recorded coherent now rfl
      obtain ⟨representative, leads⟩ := recorded.leads
      simp only [Entry.moves, voted, leads, Option.map_some, Option.getD_some]
      refine (silent_currentRepresentative record).before
        (run_currentRepresentative representative (leads_insert accepted.fresh leads)) ?_
      refine performs_take (fun written => performs_give written ?_) _
      exact silent_settleTransfer (some record) content details amount _

omit coherent named in
theorem performs_commitUpgrade (existing : Option AccountRecord) (content : StateContent)
    (epoch : Epoch) :
    Performs tables (commitUpgrade block now existing content epoch)
      (commitUpgrade block now existing content epoch) [] := by
  refine Silent.performs ?_ tables
  unfold commitUpgrade
  refine (silent_nextHeight _).bind fun height => ?_
  refine (silent_storeBlock _ _).bind fun _ => ?_
  exact (silent_updateAccount _ _).bind fun _ => silent_dropFrontier _

theorem performs_commit {entry : Entry} (accepted : Accepted constants hint block tables entry) :
    Performs tables (entry.commit block now) (entry.commit block now)
      (entry.moves tables.blocks) := by
  cases entry with
  | send => exact performs_commitSend coherent now accepted
  | receive => exact performs_commitReceive coherent now named accepted
  | opening content receivable => exact performs_commitOpening now named content receivable
  | change => exact performs_commitChange coherent now accepted
  | transfer => exact performs_commitTransfer coherent now accepted
  | upgrade existing content epoch => exact performs_commitUpgrade now existing content epoch

end Commits

/-! ## Moves of a call -/

section Queries

variable (watched : Watched)

theorem walkToRepresentative_watched (steps : Nat) (hash : BlockHash) :
    walkToRepresentative watched steps hash = walkToRepresentative watched.tables steps hash := by
  induction steps generalizing hash with
  | zero => rfl
  | succ steps inductionHypothesis =>
      unfold walkToRepresentative
      simp only [inductionHypothesis]
      rfl

theorem judge_watched (constants : LedgerConstants) (hint : Verification) (block : Block) :
    judge constants hint block watched = judge constants hint block watched.tables := by
  unfold judge
  cases block.content <;> rfl

theorem nextUndo_watched (hash : BlockHash) (account : Account) :
    nextUndo watched hash account = nextUndo watched.tables hash account := by
  unfold nextUndo planUndo recordBefore representativeBlock?
  simp only [walkToRepresentative_watched]
  rfl

end Queries

/-- The moves that offering a block comes to. -/
def weightMoves (constants : LedgerConstants) (hint : Verification) (block : Block)
    (tables : Tables) : List WeightMove :=
  match judge constants hint block tables with
  | .ok (.accepted entry) => entry.moves tables.blocks
  | .ok (.refused _) | .error _ => []

/-- The representative that a block leaves its account with. -/
def representativeAt (tables : Tables) (hash : BlockHash) : Account :=
  match representativeBlock? tables hash with
  | .ok (some naming) =>
    ((tables.blocks.get? naming).bind fun found => found.block.representative?).getD .zero
  | .ok none | .error _ => .zero

/-- The moves that undoing a block comes to: its account takes back its vote, and votes as it did
before the block. -/
def undoMoves (tables : Tables) (hash : BlockHash) : List WeightMove :=
  match tables.blocks.get? hash with
  | none => []
  | some stored =>
    .taken (representativeAt tables hash) stored.sideband.balance
      :: ((tables.blocks.get? stored.block.previous).map fun previous =>
          WeightMove.given (representativeAt tables stored.block.previous)
            previous.sideband.balance).toList

section Calls

variable {constants : LedgerConstants} {hint : Verification} {block : Block} {tables : Tables}
  {hash : BlockHash}

theorem performs_process (coherent : tables.Coherent constants) (named : block.hash ≠ .zero)
    (now : Timestamp) (hint : Verification) :
    Performs tables (process constants now hint block) (process constants now hint block)
      (weightMoves constants hint block tables) := by
  have judges : Silent (.read (judge constants hint block)) (.read (judge constants hint block)) :=
    ⟨fun tables changes => congrArg (·, _) (judge_watched ⟨tables, changes⟩ constants hint block),
      fun _ => rfl⟩
  unfold process
  refine (judges.performs tables).bind fun judgement written outcome => ?_
  obtain ⟨judged, rfl⟩ := Prod.mk.inj outcome
  rw [judged]
  cases judgement with
  | refused receipt => exact (silent_pure receipt).performs tables
  | accepted entry =>
      have commits := performs_commit coherent now named (accepted_of_judge judged)
      have ends := commits.bind fun _ written _ => (silent_pure entry.receipt).performs written
      rwa [List.append_nil] at ends

private theorem silent_detach (reversal : Reversal) :
    Silent reversal.detach reversal.detach := by
  unfold Reversal.detach
  refine (silent_updateAccount _ _).bind fun _ => ?_
  refine .bind ⟨fun _ _ => rfl, fun _ => rfl⟩ fun _ => ?_
  refine .bind (silent_writeFor _ _ _ fun _ => ⟨fun _ _ => rfl, fun _ => rfl⟩) fun _ => ?_
  refine .bind (silent_writeFor _ _ _ fun _ => ⟨fun _ _ => rfl, fun _ => rfl⟩) fun _ => ?_
  exact silent_writeFor _ _ _ fun _ => ⟨fun _ _ => rfl, fun _ => rfl⟩

/-- Whatever is taken back, this takes the moves that it says. -/
theorem performs_apply (reversal : Reversal) (tables : Tables) :
    Performs tables reversal.apply reversal.apply reversal.moves := by
  unfold Reversal.apply Reversal.moves
  refine Silent.before (silent_writeFor _ _ _ fun _ => ⟨fun _ _ => rfl, fun _ => rfl⟩)
    (run_writeFor _ _ _) ?_
  refine Silent.before (silent_writeFor _ _ _ fun _ => ⟨fun _ _ => rfl, fun _ => rfl⟩)
    (run_writeFor _ _ _) ?_
  refine performs_take (fun written => ?_) _
  cases reversal.regainsWeight with
  | none => exact (silent_detach reversal).performs written
  | some part => exact performs_give written (silent_detach reversal)

end Calls

/-! ## Moves of undoing -/

section Undoing

variable {constants : LedgerConstants} {tables middle : Tables} {record : AccountRecord}
  {head : StoredBlock} {before : Option AccountRecord} {undone : List BlockHash}
  {hash : BlockHash} (coherent : tables.Coherent constants) (sound : constants.Sound)

include coherent sound

theorem representativeAt_eq {naming : BlockHash} (named : NamedBy tables.blocks hash naming) :
    representativeAt tables hash
      = ((tables.blocks.get? naming).bind fun found => found.block.representative?).getD .zero := by
  have found : ∃ stored, tables.blocks.get? hash = some stored := by
    cases named with
    | here found => exact ⟨_, found⟩
    | earlier found => exact ⟨_, found⟩
  obtain ⟨stored, found⟩ := found
  obtain ⟨other, otherNamed, walked⟩ := coherent.representativeBlock?_eq sound found
  obtain rfl := otherNamed.unique named
  unfold representativeAt
  rw [walked]

/-- What is planned to take a head back makes the moves of undoing it. -/
theorem moves_reversalOf (removable : Removable constants tables record head)
    (precedes : Precedes tables.blocks record head before) :
    (reversalOf tables record head before).moves = undoMoves tables record.head := by
  have recorded := coherent.removable_recorded removable
  have loses : votes tables.blocks record
      = (representativeAt tables record.head, head.sideband.balance) := by
    rw [representativeAt_eq coherent sound recorded.representative, ← recorded.balance]
    rfl
  unfold undoMoves Reversal.moves reversalOf
  rw [removable.found]
  cases precedes with
  | first isFirst =>
      simp only [loses, isFirst, coherent.zero_absent]
      rfl
  | later found named =>
      simp only [loses, found, Option.map_some, representativeAt_eq coherent sound named]
      rfl

theorem performs_retract (removable : Removable constants tables record head)
    (precedes : Precedes tables.blocks record head before) :
    Makes tables (reversalOf tables record head before).apply
      (reversalOf tables record head before).apply (undoMoves tables record.head) := by
  obtain ⟨moves, -, makes, complete⟩ := performs_apply (reversalOf tables record head before) tables
  rw [run_apply coherent removable precedes] at complete
  obtain rfl := complete () rfl
  rwa [moves_reversalOf coherent sound removable precedes] at makes

/-- Removing other blocks does not change what undoing a block comes to. -/
theorem undoMoves_removes (removes : Removes constants tables undone middle) {stored : StoredBlock}
    (found : middle.blocks.get? hash = some stored) :
    undoMoves middle hash = undoMoves tables hash := by
  have middleCoherent := removes.coherent_final sound coherent
  have kept {other : BlockHash} {block : StoredBlock}
      (otherFound : middle.blocks.get? other = some block) :
      tables.blocks.get? other = some block := (removes.found_iff.mp otherFound).2
  have same {other : BlockHash} {block : StoredBlock}
      (otherFound : middle.blocks.get? other = some block) :
      representativeAt middle other = representativeAt tables other := by
    obtain ⟨naming, named, -⟩ := middleCoherent.representativeBlock?_eq sound otherFound
    have named' : NamedBy tables.blocks other naming := by
      clear otherFound
      induction named with
      | here here names => exact .here (kept here) names
      | earlier here silent _ inductionHypothesis =>
          exact .earlier (kept here) silent inductionHypothesis
    obtain ⟨last, representative, lastFound, -⟩ := named.names
    rw [representativeAt_eq middleCoherent sound named, representativeAt_eq coherent sound named',
      lastFound, kept lastFound]
  unfold undoMoves
  rw [found, kept found]
  simp only [same found]
  by_cases first : stored.block.previous = .zero
  · rw [first, coherent.zero_absent, middleCoherent.zero_absent]
    rfl
  · obtain ⟨previous, previousFound, -⟩ := middleCoherent.later_block sound found first
    rw [previousFound, kept previousFound, same previousFound]

theorem flatMap_undoMoves {others : List BlockHash} {final : Tables}
    (removes : Removes constants tables undone middle)
    (rest : Removes constants middle others final) :
    others.flatMap (undoMoves middle) = others.flatMap (undoMoves tables) := by
  refine List.flatMap_congr fun removed member => ?_
  obtain ⟨-, stored, found⟩ := rest.stored_of_mem member
  exact undoMoves_removes coherent sound removes found

/-- The weights that are left after some blocks were taken away. -/
theorem Removes.weight_eq (removes : Removes constants tables undone middle) :
    middle.weight = moved tables.weight (undone.flatMap (undoMoves tables)) := by
  induction removes with
  | done => rfl
  | next removable precedes rest inductionHypothesis =>
      have step := Removes.next removable precedes (.done _)
      have makes := performs_retract coherent sound removable precedes
      rw [inductionHypothesis (coherent.retract sound removable precedes),
        flatMap_undoMoves coherent sound step rest, List.flatMap_cons, moved_append,
        ← makes.weight, run_apply coherent removable precedes]

/-- On watched tables, undoing goes the same way and writes weights by its moves. -/
structure UndoesWatched (constants : LedgerConstants) (tables : Tables)
    (changes : List WeightChange) (watched : Undoing Watched) (plain : Undoing Tables) : Prop where
  same : watched = ⟨⟨plain.store, changes
    ++ trail tables.weight (plain.undone.flatMap (undoMoves tables))⟩, plain.undone, plain.outcome⟩
  removes : Removes constants tables plain.undone plain.store

theorem UndoesWatched.after {changes : List WeightChange} {watched : Undoing Watched}
    {plain : Undoing Tables} (removes : Removes constants tables undone middle)
    (rest : UndoesWatched constants middle
      (changes ++ trail tables.weight (undone.flatMap (undoMoves tables))) watched plain) :
    UndoesWatched constants tables changes (watched.after undone) (plain.after undone) where
  same := by
    rw [rest.same]
    unfold Undoing.after
    simp only [List.flatMap_append, trail_append, List.append_assoc]
    rw [← removes.weight_eq coherent sound, flatMap_undoMoves coherent sound removes rest.removes]
  removes := removes.append rest.removes

theorem unwind_watched {depth : Nat} {account : Account}
    (notGenesis : hash ≠ constants.genesis.hash)
    (owner : ∀ stored, tables.blocks.get? hash = some stored → stored.sideband.account = account)
    (changes : List WeightChange) :
    UndoesWatched constants tables changes (unwind depth hash account (⟨tables, changes⟩ : Watched))
      (unwind depth hash account tables) := by
  induction depth generalizing tables hash account changes with
  | zero => exact ⟨by simp only [unwind, List.flatMap_nil, trail, List.append_nil], .done _⟩
  | succ depth inductionHypothesis =>
      cases found : tables.blocks.get? hash with
      | none =>
          have missing : Store.hasBlock (⟨tables, changes⟩ : Watched) hash = false :=
            (tables.blocks.contains_eq_false_iff hash).mpr found
          rw [unwind_absent depth account found]
          refine ⟨?_, .done _⟩
          simp only [unwind, missing, Bool.not_false, if_true, List.flatMap_nil, trail,
            List.append_nil]
      | some stored =>
          obtain rfl := owner stored found
          obtain ⟨record, head, step, headFound, headOwner, depends, next, spec⟩ :=
            nextUndo_spec coherent sound found notGenesis
          have contained : Store.hasBlock tables hash = true :=
            (tables.blocks.contains_eq_true_iff hash).mpr ⟨stored, found⟩
          have alsoContained : Store.hasBlock (⟨tables, changes⟩ : Watched) hash = true := contained
          simp only [unwind, contained, alsoContained, Bool.not_true, Bool.false_eq_true, if_false,
            nextUndo_watched, next]
          cases spec with
          | reverse removable precedes =>
              have step := Removes.next removable precedes (.done _)
              have applied := (performs_retract coherent sound removable precedes).run changes
              rw [run_apply coherent removable precedes] at applied
              simp only [applied, run_apply coherent removable precedes]
              refine .after coherent sound step ?_
              rw [List.flatMap_singleton]
              refine inductionHypothesis (coherent.retract sound removable precedes) notGenesis ?_ _
              exact fun other otherFound => owner other (found_retract.mp otherFound).2
          | @dependency dependency other dependencyFound dependencyNotGenesis =>
              have watchedOwner : ownerToUndo (⟨tables, changes⟩ : Watched) dependency
                  = .ok other.sideband.account := ownerToUndo_eq dependencyFound
              simp only [ownerToUndo_eq dependencyFound, watchedOwner]
              have first := inductionHypothesis coherent dependencyNotGenesis
                (fun block blockFound => congrArg (fun found => found.sideband.account)
                  (Option.some.inj (blockFound.symm.trans dependencyFound))) changes
              rw [first.same]
              cases outcome : (unwind depth dependency other.sideband.account tables).outcome with
              | error fault => exact ⟨congrArg _ outcome.symm, first.removes⟩
              | ok =>
                  refine .after coherent sound first.removes (inductionHypothesis
                    (first.removes.coherent_final sound coherent) notGenesis ?_ _)
                  exact fun block blockFound =>
                    owner block (first.removes.found_iff.mp blockFound).2

/-- Undoing a block of watched tables undoes the same blocks, with their moves. -/
theorem rollback_watched {stored : StoredBlock} (found : tables.blocks.get? hash = some stored)
    (notGenesis : hash ≠ constants.genesis.hash) :
    UndoesWatched constants tables [] (rollback hash (⟨tables, []⟩ : Watched))
      (rollback hash tables) := by
  have watchedOwner : ownerToUndo (⟨tables, []⟩ : Watched) hash = .ok stored.sideband.account :=
    ownerToUndo_eq found
  unfold rollback
  simp only [ownerToUndo_eq found, watchedOwner]
  refine unwind_watched coherent sound notGenesis ?_ []
  exact fun other otherFound => congrArg (fun found => found.sideband.account)
    (Option.some.inj (otherFound.symm.trans found))

end Undoing

end Ledger

end AccountChains
