import AccountChains.Proofs.Ledger.Authenticity
import AccountChains.Proofs.Ledger.Ownership

/-!
Contract: what a true hint changes.

A hint that vouches for a key takes the place of a check against this key. If the hint
is true, the check would have been passed, and all other checks are made as without a
hint. So a ledger that is told the truth judges a block as if it had been told nothing,
and does the same; only what the receipt says about the signature may differ.

One refusal looks at hints in a way of its own. A block with an epoch link whose
predecessor is missing has to be signed by its account or by the signer of the link, and
either hint claims one of the two.

Owns: `Truthful`, and that calls with a truthful hint and without a hint come to the same.
Does not own: who finds out about signatures before the ledger does.
-/

namespace AccountChains

open BlockTable Tables

/-- A receipt but for what it says about the signature. -/
def Receipt.unverified (receipt : Receipt) : Receipt := { receipt with verified := .unknown }

namespace Ledger

/-- A judgement but for what it says about the signature. -/
def Judgement.unverified : Judgement → Judgement
  | .refused receipt => .refused receipt.unverified
  | .accepted entry => .accepted entry

/-- Two calls come to the same, but for what is then known about the signature. -/
structure SameOutcome {σ : Type} (left right : Answer Receipt × σ) : Prop where
  answer : left.1.map Receipt.unverified = right.1.map Receipt.unverified
  store : left.2 = right.2

/-- A block belongs to the account that it names, or else to the owner of the block before it. -/
inductive BelongsTo (blocks : BlockTable) (block : Block) : Account → Prop where
  | named {account : Account} (names : block.content.lineage = .own account) :
      BelongsTo blocks block account
  | following {previous : BlockHash} {before : StoredBlock}
      (follows : block.content.lineage = .after previous)
      (found : blocks.get? previous = some before) :
      BelongsTo blocks block before.sideband.account

/-- What a hint says about the signature of a block is true. As long as the ledger does not know
who owns a block, or has no signer for its link, nothing is said about any key. -/
def Truthful (constants : LedgerConstants) (blocks : BlockTable) (block : Block) :
    Verification → Prop
  | .unknown => True
  | .invalid => False
  | .valid => ∀ owner, BelongsTo blocks block owner → block.isSignedBy owner
  | .validEpoch => ∀ signer, constants.epochs.signer? block.link = some signer →
      block.isSignedBy signer

/-! ## Judging with two hints -/

/-- Two answers to the question about a block, up to what they say about its signature. -/
def Alike (left right : Answer Judgement) : Prop :=
  left.map Judgement.unverified = right.map Judgement.unverified

namespace Alike

variable {α : Type} {left right : Answer Judgement}

theorem refuse (verdict : Verdict) (first second : Verification) :
    Alike (pure (Ledger.refuse verdict first)) (pure (Ledger.refuse verdict second)) := rfl

theorem bind {query : Answer α} {next other : α → Answer Judgement}
    (each : ∀ value, query = .ok value → Alike (next value) (other value)) :
    Alike (query >>= next) (query >>= other) := by
  cases query with
  | error fault => rfl
  | ok value => exact each value rfl

theorem ite {condition : Prop} [Decidable condition] {otherLeft otherRight : Answer Judgement}
    (first : Alike left otherLeft) (second : Alike right otherRight) :
    Alike (if condition then left else right) (if condition then otherLeft else otherRight) := by
  by_cases holds : condition
  · simpa only [if_pos holds]
  · simpa only [if_neg holds]

end Alike

/-- Without a hint it is the signature that counts. -/
theorem isVouchedOrSigned_unhinted {vouched : Verification} (known : vouched ≠ .unknown)
    (block : Block) (signer : Account) :
    isVouchedOrSigned .unknown vouched block signer = block.isSignedBy signer := by
  unfold isVouchedOrSigned
  rw [beq_false_of_ne known.symm, Bool.false_or]

/-- A hint that is true of a key does not change the result of the check against it. -/
theorem isVouchedOrSigned_eq {hint vouched : Verification} {block : Block} {signer : Account}
    (backed : hint = vouched → block.isSignedBy signer) (known : vouched ≠ .unknown) :
    isVouchedOrSigned hint vouched block signer
      = isVouchedOrSigned .unknown vouched block signer := by
  rw [isVouchedOrSigned_unhinted known]
  unfold isVouchedOrSigned
  by_cases vouches : hint = vouched
  · rw [backed vouches, Bool.or_true]
  · rw [beq_false_of_ne vouches, Bool.false_or]

section Judging

variable {constants : LedgerConstants} {hint : Verification} {block : Block} {tables : Tables}

/-- The checks that legacy blocks have in common do not look at hints. -/
theorem alike_judgeAfter {other : Verification} {rest otherRest : Account → Answer Judgement}
    (each : ∀ account, tables.frontiers.get? block.previous = some account →
      Alike (rest account) (otherRest account)) :
    Alike (judgeAfter hint block tables rest) (judgeAfter other block tables otherRest) := by
  unfold judgeAfter
  refine .ite (.refuse ..) (.bind fun before _ => ?_)
  cases before with
  | none => exact .refuse ..
  | some before =>
      refine .ite (.refuse ..) (.bind fun account fronted => ?_)
      cases account with
      | none => exact .refuse ..
      | some account => exact each account (Except.ok.inj fronted)

section Legacy

variable (backed : ∀ account, tables.frontiers.get? block.previous = some account →
  hint = .valid → block.isSignedBy account)

include backed

theorem alike_judgeSend {content : SendContent} (form : block.content = .send content) :
    Alike (judgeSend hint block content tables) (judgeSend .unknown block content tables) := by
  rw [judgeSend_eq hint tables form, judgeSend_eq .unknown tables form]
  refine alike_judgeAfter fun account fronted => ?_
  rw [isVouchedOrSigned_eq (backed account fronted) (by decide)]
  exact .ite (.refuse ..) rfl

theorem alike_judgeReceive {content : ReceiveContent} (form : block.content = .receive content) :
    Alike (judgeReceive hint block content tables)
      (judgeReceive .unknown block content tables) := by
  rw [judgeReceive_eq hint tables form, judgeReceive_eq .unknown tables form]
  refine alike_judgeAfter fun account fronted => ?_
  rw [isVouchedOrSigned_eq (backed account fronted) (by decide)]
  exact .ite (.refuse ..) rfl

theorem alike_judgeChange {content : ChangeContent} (form : block.content = .change content) :
    Alike (judgeChange hint block content tables)
      (judgeChange .unknown block content tables) := by
  rw [judgeChange_eq hint tables form, judgeChange_eq .unknown tables form]
  refine alike_judgeAfter fun account fronted => ?_
  rw [isVouchedOrSigned_eq (backed account fronted) (by decide)]
  exact .bind fun record _ => .ite (.refuse ..) rfl

end Legacy

theorem alike_judgeOpening {content : OpeningContent}
    (backed : hint = .valid → block.isSignedBy content.account) :
    Alike (judgeOpening constants hint block content tables)
      (judgeOpening constants .unknown block content tables) := by
  unfold judgeOpening
  rw [isVouchedOrSigned_eq backed (by decide)]
  exact .ite (.refuse ..) (.ite (.refuse ..) rfl)

theorem alike_judgeTransfer {content : StateContent}
    (backed : hint = .valid → block.isSignedBy content.account) :
    Alike (judgeTransfer hint block content tables)
      (judgeTransfer .unknown block content tables) := by
  unfold judgeTransfer
  rw [isVouchedOrSigned_eq backed (by decide)]
  exact .ite (.refuse ..) (.ite (.refuse ..) rfl)

section Linked

variable {content : StateContent}
  (signed : hint = .validEpoch →
    block.isSignedBy ((constants.epochs.signer? content.link).getD .zero))

include signed

theorem alike_judgeUpgrade : Alike (judgeUpgrade constants hint block content tables)
    (judgeUpgrade constants .unknown block content tables) := by
  unfold judgeUpgrade
  dsimp only
  rw [isVouchedOrSigned_eq signed (by decide)]
  exact .ite (.refuse ..) (.ite (.refuse ..) rfl)

/-- Either hint claims a signature that is enough for a block whose predecessor is missing. -/
theorem alike_refuseEpochGap (backed : hint = .valid → block.isSignedBy content.account)
    (notInvalid : hint ≠ .invalid) :
    Alike (pure (refuseEpochGap constants hint block content))
      (pure (refuseEpochGap constants .unknown block content)) := by
  unfold refuseEpochGap
  cases hint with
  | unknown => rfl
  | invalid => exact absurd rfl notInvalid
  | valid =>
      rw [if_pos (by decide), if_neg (by decide), if_pos (backed rfl)]
      exact .refuse ..
  | validEpoch =>
      rw [if_pos (by decide), if_neg (by decide), if_pos (signed rfl)]
      by_cases owner : block.isSignedBy content.account
      · rw [if_pos owner]
        exact .refuse ..
      · rw [if_neg owner]
        exact .refuse ..

end Linked

theorem alike_judgeState {content : StateContent}
    (backed : hint = .valid → block.isSignedBy content.account)
    (signed : hint = .validEpoch → constants.epochs.isEpochLink content.link →
      block.isSignedBy ((constants.epochs.signer? content.link).getD .zero))
    (notInvalid : hint ≠ .invalid) :
    Alike (judgeState constants hint block content tables)
      (judgeState constants .unknown block content tables) := by
  unfold judgeState
  by_cases linked : constants.epochs.isEpochLink content.link
  · have signed := fun isHint => signed isHint linked
    simp only [linked, Bool.not_true, Bool.false_eq_true, if_false]
    refine .ite (.bind fun before _ => ?_) (.bind fun before _ => ?_)
    -- Whether the balance before is looked up or not, it is used alike.
    all_goals cases before with
      | none => exact alike_refuseEpochGap signed backed notInvalid
      | some balance => exact .ite (alike_judgeUpgrade signed) (alike_judgeTransfer backed)
  · simp only [linked, Bool.not_false, if_true]
    exact alike_judgeTransfer backed

/-- Told the truth about a signature, a ledger judges a block as without a hint. -/
theorem alike_judge (coherent : tables.Coherent constants)
    (truthful : Truthful constants tables.blocks block hint) :
    Alike (judge constants hint block tables) (judge constants .unknown block tables) := by
  have notInvalid : hint ≠ .invalid := by
    rintro rfl
    exact truthful
  have owned {account : Account} (belongs : BelongsTo tables.blocks block account) :
      hint = .valid → block.isSignedBy account := by
    rintro rfl
    exact truthful account belongs
  -- The owner of a block that names no account is found at the head of a legacy chain.
  have fronted (follows : block.content.lineage = .after block.previous) (account : Account)
      (isFronted : tables.frontiers.get? block.previous = some account) :
      hint = .valid → block.isSignedBy account := by
    obtain ⟨before, found, rfl, -⟩ := (coherent.fronted _ _).mp isFronted
    exact owned (.following follows found)
  unfold judge
  cases form : block.content with
  | send content =>
      refine alike_judgeSend (fronted ?_) form
      rw [Block.previous, form]
      rfl
  | receive content =>
      refine alike_judgeReceive (fronted ?_) form
      rw [Block.previous, form]
      rfl
  | change content =>
      refine alike_judgeChange (fronted ?_) form
      rw [Block.previous, form]
      rfl
  | opening content =>
      refine alike_judgeOpening (owned (.named ?_))
      rw [form]
      rfl
  | state content =>
      refine alike_judgeState (owned (.named ?_)) ?_ notInvalid
      · rw [form]
        rfl
      · rintro rfl linked
        obtain ⟨upgrade, registered⟩ := (Table.contains_eq_true_iff _ _).mp linked
        have signer : constants.epochs.signer? content.link = some upgrade.signer :=
          congrArg (Option.map EpochUpgrade.signer) registered
        rw [signer]
        exact truthful upgrade.signer ((Block.link_of_form form).symm ▸ signer)

end Judging

/-! ## Processing with two hints -/

/-- A block that is judged alike with two hints comes to the same with both. -/
theorem sameOutcome_of_alike {σ : Type} [Store σ] {constants : LedgerConstants}
    {hint other : Verification} {block : Block} {store : σ}
    (alike : Alike (judge constants hint block store) (judge constants other block store))
    (now : Timestamp) :
    SameOutcome ((process constants now hint block).run store)
      ((process constants now other block).run store) := by
  rw [run_process, run_process]
  unfold Alike at alike
  cases judged : judge constants hint block store with
  | error fault =>
      cases alsoJudged : judge constants other block store with
      | error otherFault =>
          rw [judged, alsoJudged] at alike
          exact ⟨congrArg Except.error (Except.error.inj alike), rfl⟩
      | ok judgement => simp [judged, alsoJudged, Except.map] at alike
  | ok judgement =>
      cases alsoJudged : judge constants other block store with
      | error fault => simp [judged, alsoJudged, Except.map] at alike
      | ok otherJudgement =>
          rw [judged, alsoJudged] at alike
          have same : judgement.unverified = otherJudgement.unverified := Except.ok.inj alike
          cases judgement with
          | refused receipt =>
              cases otherJudgement with
              | refused otherReceipt =>
                  exact ⟨congrArg Except.ok (Judgement.refused.inj same), rfl⟩
              | accepted entry => exact nomatch same
          | accepted entry =>
              cases otherJudgement with
              | refused receipt => exact nomatch same
              | accepted otherEntry =>
                  obtain rfl := Judgement.accepted.inj same
                  exact ⟨rfl, rfl⟩

/-- In every state that a ledger gets into, an offer with a true hint gets the same answer as the
offer without a hint and leaves the same tables, but for what is said about the signature. -/
theorem Reachable.hint_immaterial {constants : LedgerConstants} {tables : Tables} {block : Block}
    {hint : Verification} (reachable : Reachable constants tables) (sound : constants.Sound)
    (truthful : Truthful constants tables.blocks block hint) (now : Timestamp) :
    SameOutcome ((process constants now hint block).run tables)
      ((process constants now .unknown block).run tables) :=
  sameOutcome_of_alike (alike_judge (reachable.coherent sound) truthful) now

/-- The genesis account has signed the payment, and nobody else can be asked. -/
theorem devPayment_truthful :
    Truthful .dev (started .dev .zero .empty none).blocks devPayment .valid := by
  intro owner belongs
  cases belongs with
  | named names => exact nomatch names
  | following follows found =>
      obtain ⟨-, rfl⟩ := (found_started .zero .empty none).mp found
      exact devPayment_signed

theorem devPayment_hint_immaterial :
    SameOutcome ((process .dev .zero .valid devPayment).run (started .dev .zero .empty none))
      ((process .dev .zero .unknown devPayment).run (started .dev .zero .empty none)) :=
  Reachable.hint_immaterial (.started .zero .empty none) dev_sound devPayment_truthful .zero

end Ledger

end AccountChains
