import AccountChains.Proofs.Ledger.Coherence

/-!
Contract: which blocks are accepted.

`Accepted` has one case for each way in which a block passes its checks, with
all that was checked on the way. A block that fails a check is never told that
it is part of the ledger now.

Owns: `Gives`, what holds of every answer, with the checks that legacy blocks have
in common and the ways to judge a state block; `Accepted`, and that every accepted
block is an instance of it; what refusals say. Does not own: what is done with an
accepted block.
-/

namespace AccountChains

open BlockTable

namespace Ledger

variable {constants : LedgerConstants} {hint : Verification} {block : Block} {tables : Tables}
  {entry : Entry}

/-! ## Answers -/

/-- Whatever is answered has a property. -/
def Gives {α : Type} (holds : α → Prop) (answer : Answer α) : Prop :=
  ∀ value, answer = .ok value → holds value

namespace Gives

variable {α β : Type} {holds : α → Prop} {gained : β → Prop}

theorem self (answer : Answer α) : Gives (fun value => answer = .ok value) answer :=
  fun _ isAnswer => isAnswer

theorem pure {value : α} (held : holds value) : Gives holds (Pure.pure value) := by
  rintro _ ⟨⟩
  exact held

theorem bind {query : Answer β} {next : β → Answer α} (first : Gives gained query)
    (rest : ∀ value, gained value → Gives holds (next value)) : Gives holds (query >>= next) := by
  cases query with
  | error fault => rintro value ⟨⟩
  | ok value => exact rest value (first value rfl)

theorem ite {condition : Prop} [Decidable condition] {left right : Answer α}
    (leftGives : condition → Gives holds left) (rightGives : ¬ condition → Gives holds right) :
    Gives holds (if condition then left else right) := by
  by_cases isSo : condition
  · rw [if_pos isSo]
    exact leftGives isSo
  · rw [if_neg isSo]
    exact rightGives isSo

theorem map {query : Answer β} {change : β → α} (first : Gives gained query)
    (rest : ∀ value, gained value → holds (change value)) : Gives holds (change <$> query) := by
  cases query with
  | error fault => rintro value ⟨⟩
  | ok value =>
      rintro _ ⟨⟩
      exact rest value (first value rfl)

end Gives

/-! ## Legacy blocks with a predecessor -/

section Following

variable {σ : Type} [Store σ]

/-- The checks that a legacy block begins with if it is not the first of its chain. The rest is up
to its kind, and goes on with the owner of the chain. -/
def judgeAfter (hint : Verification) (block : Block) (store : σ)
    (rest : Account → Answer Judgement) : Answer Judgement := do
  if Store.hasBlock store block.hash then return refuse .old hint
  let some before ← stored (Store.block? store block.previous) | return refuse .gapPrevious hint
  if !block.mayFollow before.block.kind then return refuse .blockPosition hint
  let some account ← stored (Store.frontier? store block.previous) | return refuse .fork hint
  rest account

variable (hint : Verification) {block : Block} (store : σ)

theorem judgeSend_eq {content : SendContent} (form : block.content = .send content) :
    judgeSend hint block content store = judgeAfter hint block store fun account => do
      if !isVouchedOrSigned hint .valid block account then return refuse .badSignature hint
      let record ← frontierRecord store account
      if record.balance < content.balance then return refuse .negativeSpend .valid
      return .accepted (.send account record content) := by
  have previous : block.previous = content.previous := Block.previous_of_form form
  unfold judgeAfter
  rw [previous]
  rfl

theorem judgeReceive_eq {content : ReceiveContent} (form : block.content = .receive content) :
    judgeReceive hint block content store = judgeAfter hint block store fun account => do
      if !isVouchedOrSigned hint .valid block account then return refuse .badSignature hint
      if !Store.hasBlock store content.source then return refuse .gapSource .valid
      let record ← frontierRecord store account
      if record.head ≠ content.previous then return refuse .gapPrevious .valid
      let some receivable ← stored (Store.receivable? store ⟨account, content.source⟩)
        | return refuse .unreceivable .valid
      if receivable.epoch ≠ .zero then return refuse .unreceivable .valid
      return .accepted (.receive account record content receivable) := by
  have previous : block.previous = content.previous := Block.previous_of_form form
  unfold judgeAfter
  rw [previous]
  rfl

theorem judgeChange_eq {content : ChangeContent} (form : block.content = .change content) :
    judgeChange hint block content store = judgeAfter hint block store fun account => do
      let record ← frontierRecord store account
      if !isVouchedOrSigned hint .valid block account then return refuse .badSignature hint
      return .accepted (.change account record content) := by
  have previous : block.previous = content.previous := Block.previous_of_form form
  unfold judgeAfter
  rw [previous]
  rfl

theorem exists_judgeAfter (constants : LedgerConstants) (legacy : block.kind.isLegacy)
    (later : block.previous ≠ .zero) :
    ∃ rest, judge constants hint block store = judgeAfter hint block store rest := by
  unfold judge
  cases form : block.content with
  | send content => exact ⟨_, judgeSend_eq hint store form⟩
  | receive content => exact ⟨_, judgeReceive_eq hint store form⟩
  | change content => exact ⟨_, judgeChange_eq hint store form⟩
  | opening content => exact absurd (Block.previous_of_form form) later
  | state content => simp [Block.kind, form, Content.kind, BlockKind.isLegacy] at legacy

variable {hint} {tables : Tables} {rest : Account → Answer Judgement}

theorem mayFollow_eq (legacy : block.kind.isLegacy) (later : block.previous ≠ .zero)
    (before : BlockKind) : block.mayFollow before = before.isLegacy := by
  unfold Block.mayFollow
  cases form : block.content with
  | send | receive | change => rfl
  | opening content => exact absurd (Block.previous_of_form form) later
  | state content => simp [Block.kind, form, Content.kind, BlockKind.isLegacy] at legacy

theorem judgeAfter_of_absent (fresh : tables.blocks.contains block.hash = false)
    (absent : tables.blocks.get? block.previous = none) :
    judgeAfter hint block tables rest = .ok (refuse .gapPrevious hint) := by
  simp [judgeAfter, stored, Store.hasBlock, Store.block?, Except.mapError, bind, Except.bind, pure,
    Except.pure, fresh, absent]

/-- Only the head of a legacy chain has an owner. -/
theorem judgeAfter_of_found (fresh : tables.blocks.contains block.hash = false)
    {before : StoredBlock} (found : tables.blocks.get? block.previous = some before)
    (follows : block.mayFollow before.block.kind) :
    judgeAfter hint block tables rest = match tables.frontiers.get? block.previous with
      | some account => rest account
      | none => .ok (refuse .fork hint) := by
  simp only [judgeAfter, stored, Store.hasBlock, Store.block?, Store.frontier?, Except.mapError,
    bind, Except.bind, pure, Except.pure, fresh, found, follows, Bool.not_true, Bool.false_eq_true,
    if_false]
  cases tables.frontiers.get? block.previous <;> rfl

/-- What legacy blocks are told before the owner of the chain is known, and what the rest of their
checks gives for its owner. -/
theorem gives_judgeAfter {holds : Judgement → Prop} (old : holds (refuse .old hint))
    (position : holds (refuse .blockPosition hint)) (fork : holds (refuse .fork hint))
    (gap : tables.blocks.get? block.previous = none → holds (refuse .gapPrevious hint))
    (each : ∀ account, tables.frontiers.get? block.previous = some account →
      Gives holds (rest account)) :
    Gives holds (judgeAfter hint block tables rest) := by
  unfold judgeAfter
  refine .ite (fun _ => .pure old) fun _ => .bind (.self _) fun before isBefore => ?_
  cases before with
  | none => exact .pure (gap (Except.ok.inj isBefore))
  | some before =>
      refine .ite (fun _ => .pure position) fun _ => .bind (.self _) fun account fronted => ?_
      cases account with
      | none => exact .pure fork
      | some account => exact each account (Except.ok.inj fronted)

end Following

/-! ## State blocks -/

/-- A state block is judged as a transfer or as an epoch block, unless it has an epoch link and
its predecessor is missing. -/
theorem gives_judgeState {σ : Type} [Store σ] {store : σ} {content : StateContent}
    {holds : Judgement → Prop} (transfers : Gives holds (judgeTransfer hint block content store))
    (upgrades : Gives holds (judgeUpgrade constants hint block content store))
    (gap : balance? store content.previous = .ok none →
      holds (refuseEpochGap constants hint block content)) :
    Gives holds (judgeState constants hint block content store) := by
  unfold judgeState
  refine .ite (fun _ => transfers) fun _ => ?_
  refine .ite (fun _ => .bind (.self _) fun before isBefore => ?_) fun _ =>
    .bind (.self _) fun before isBefore => ?_
  -- A first block has no predecessor that could be missing.
  · cases before with
    | none => exact nomatch isBefore
    | some balance => exact .ite (fun _ => upgrades) fun _ => transfers
  · cases before with
    | none => exact .pure (gap isBefore)
    | some balance => exact .ite (fun _ => upgrades) fun _ => transfers

/-! ## Accepted blocks -/

/-- A legacy block that is not the first one passes the checks that such blocks have in common. -/
structure FollowsLegacy (hint : Verification) (block : Block) (tables : Tables)
    (account : Account) (record : AccountRecord) : Prop where
  absent : tables.blocks.get? block.hash = none
  position : ∃ previous, tables.blocks.get? block.previous = some previous ∧
    block.mayFollow previous.block.kind
  fronted : tables.frontiers.get? block.previous = some account
  signed : isVouchedOrSigned hint .valid block account
  recorded : tables.accounts.get? account = some record

/-- A state block names the head of its account, or no block if its account has none. -/
structure Continues (tables : Tables) (content : StateContent) (existing : Option AccountRecord) :
    Prop where
  recorded : tables.accounts.get? content.account = existing
  previous : content.previous = (existing.map AccountRecord.head).getD .zero
  named : existing.isSome → content.previous ≠ .zero
  owned : content.account ≠ .zero

/-- The balance that an account has before a block of it. -/
def balanceOf (existing : Option AccountRecord) : Amount :=
  (existing.getD .blank).balance

/-- The epoch that an account has before a block of it. -/
def epochOf (existing : Option AccountRecord) : Epoch :=
  (existing.getD .blank).epoch

/-- A block passes all checks and is taken in as an entry says. -/
inductive Accepted (constants : LedgerConstants) (hint : Verification) (block : Block)
    (tables : Tables) : Entry → Prop where
  | send {account : Account} {record : AccountRecord} {content : SendContent}
      (form : block.content = .send content)
      (follows : FollowsLegacy hint block tables account record)
      (covered : ¬ record.balance < content.balance) :
      Accepted constants hint block tables (.send account record content)
  | receive {account : Account} {record : AccountRecord} {content : ReceiveContent}
      {receivable : Receivable}
      (form : block.content = .receive content)
      (follows : FollowsLegacy hint block tables account record)
      (source : tables.blocks.contains content.source)
      (last : record.head = content.previous)
      (waits : tables.receivables.get? ⟨account, content.source⟩ = some receivable)
      (original : receivable.epoch = .zero) :
      Accepted constants hint block tables (.receive account record content receivable)
  | opening {content : OpeningContent} {receivable : Receivable}
      (form : block.content = .opening content)
      (absent : tables.blocks.get? block.hash = none)
      (signed : isVouchedOrSigned hint .valid block content.account)
      (source : tables.blocks.contains content.source)
      (unopened : tables.accounts.get? content.account = none)
      (waits : tables.receivables.get? ⟨content.account, content.source⟩ = some receivable)
      (owned : content.account ≠ constants.burnAccount)
      (original : receivable.epoch = .zero) :
      Accepted constants hint block tables (.opening content receivable)
  | change {account : Account} {record : AccountRecord} {content : ChangeContent}
      (form : block.content = .change content)
      (follows : FollowsLegacy hint block tables account record) :
      Accepted constants hint block tables (.change account record content)
  | outgoing {record : AccountRecord} {content : StateContent}
      (form : block.content = .state content)
      (absent : tables.blocks.get? block.hash = none)
      (signed : isVouchedOrSigned hint .valid block content.account)
      (continues : Continues tables content (some record))
      (spends : content.balance < record.balance) :
      Accepted constants hint block tables (.transfer (some record) content
        ⟨record.epoch, true, false, false⟩ (record.balance.wrappingSub content.balance) .zero)
  | standing {record : AccountRecord} {content : StateContent}
      (form : block.content = .state content)
      (absent : tables.blocks.get? block.hash = none)
      (signed : isVouchedOrSigned hint .valid block content.account)
      (continues : Continues tables content (some record))
      (unlinked : content.link = .zero)
      (keeps : content.balance = record.balance) :
      Accepted constants hint block tables (.transfer (some record) content
        ⟨record.epoch, false, false, false⟩ .zero .zero)
  | incoming {existing : Option AccountRecord} {content : StateContent} {receivable : Receivable}
      (form : block.content = .state content)
      (absent : tables.blocks.get? block.hash = none)
      (signed : isVouchedOrSigned hint .valid block content.account)
      (continues : Continues tables content existing)
      (covered : ¬ content.balance < balanceOf existing)
      (linked : content.link ≠ .zero)
      (source : tables.blocks.contains content.link.asBlockHash)
      (waits : tables.receivables.get? ⟨content.account, content.link.asBlockHash⟩
        = some receivable)
      (gains : content.balance.wrappingSub (balanceOf existing) = receivable.amount) :
      Accepted constants hint block tables (.transfer existing content
        ⟨(epochOf existing).later receivable.epoch, false, true, false⟩ receivable.amount
        receivable.epoch)
  | upgrade {existing : Option AccountRecord} {content : StateContent} {epoch : Epoch}
      (form : block.content = .state content)
      (absent : tables.blocks.get? block.hash = none)
      (signed : isVouchedOrSigned hint .validEpoch block
        ((constants.epochs.signer? content.link).getD .zero))
      (continues : Continues tables content existing)
      (unnamed : existing = none → content.representative = .zero)
      (agrees : ∀ record, existing = some record →
        representativeOf tables.blocks record = some content.representative)
      (leads : constants.epochs.epoch? content.link = some epoch)
      (sequential : ∀ record, existing = some record → record.epoch.isSequential epoch)
      (keeps : content.balance = balanceOf existing) :
      Accepted constants hint block tables (.upgrade existing content epoch)

section Inversion

/-- A check that refuses a block was passed if the block is accepted. -/
private theorem passed {failed : Prop} [Decidable failed] {receipt : Receipt}
    {rest : Answer Judgement}
    (judged : (if failed then .ok (.refused receipt) else rest) = .ok (.accepted entry)) :
    ¬ failed ∧ rest = .ok (.accepted entry) := by
  by_cases fails : failed
  · simp [fails] at judged
  · exact ⟨fails, by rwa [if_neg fails] at judged⟩

theorem frontierRecord_eq (account : Account) :
    frontierRecord tables account = match tables.accounts.get? account with
      | some record => .ok record
      | none => .error (.error (.unknownFrontierAccount account)) := by
  simp only [frontierRecord, stored, Store.account?, Except.mapError, bind, Except.bind]
  cases tables.accounts.get? account <;> rfl

/-- A block that is accepted after a legacy block has passed the checks that it begins with. -/
private theorem of_judgeAfter {rest : Account → Answer Judgement}
    (judged : judgeAfter hint block tables rest = .ok (.accepted entry)) :
    tables.blocks.get? block.hash = none ∧
      (∃ before, tables.blocks.get? block.previous = some before ∧
        block.mayFollow before.block.kind) ∧
      ∃ account, tables.frontiers.get? block.previous = some account ∧
        rest account = .ok (.accepted entry) := by
  unfold judgeAfter at judged
  simp only [stored, Store.hasBlock, Store.block?, Store.frontier?, Except.mapError, bind,
    Except.bind, pure, Except.pure] at judged
  obtain ⟨absent, judged⟩ := passed judged
  split at judged
  case h_2 => simp [refuse] at judged
  next before found =>
  obtain ⟨position, judged⟩ := passed judged
  split at judged
  case h_2 => simp [refuse] at judged
  next account fronted =>
  exact ⟨(tables.blocks.contains_eq_false_iff _).mp (by simpa using absent),
    ⟨before, found, by simpa using position⟩, account, fronted, judged⟩

theorem accepted_of_judgeSend {content : SendContent} (form : block.content = .send content)
    (judged : judgeSend hint block content tables = .ok (.accepted entry)) :
    Accepted constants hint block tables entry := by
  rw [judgeSend_eq hint tables form] at judged
  obtain ⟨absent, position, account, fronted, judged⟩ := of_judgeAfter judged
  simp only [frontierRecord_eq, bind, Except.bind, pure, Except.pure] at judged
  obtain ⟨signed, judged⟩ := passed judged
  cases recorded : tables.accounts.get? account with
  | none => simp [recorded] at judged
  | some record =>
      simp only [recorded] at judged
      obtain ⟨covered, judged⟩ := passed judged
      obtain rfl := Judgement.accepted.inj (Except.ok.inj judged)
      exact .send form ⟨absent, position, fronted, by simpa using signed, recorded⟩ covered

theorem accepted_of_judgeReceive {content : ReceiveContent}
    (form : block.content = .receive content)
    (judged : judgeReceive hint block content tables = .ok (.accepted entry)) :
    Accepted constants hint block tables entry := by
  rw [judgeReceive_eq hint tables form] at judged
  obtain ⟨absent, position, account, fronted, judged⟩ := of_judgeAfter judged
  simp only [stored, Store.hasBlock, Store.receivable?, frontierRecord_eq, Except.mapError, bind,
    Except.bind, pure, Except.pure] at judged
  obtain ⟨signed, judged⟩ := passed judged
  obtain ⟨source, judged⟩ := passed judged
  cases recorded : tables.accounts.get? account with
  | none => simp [recorded] at judged
  | some record =>
      simp only [recorded] at judged
      obtain ⟨last, judged⟩ := passed judged
      split at judged
      case h_2 => simp [refuse] at judged
      next receivable waits =>
      obtain ⟨original, judged⟩ := passed judged
      obtain rfl := Judgement.accepted.inj (Except.ok.inj judged)
      exact .receive form ⟨absent, position, fronted, by simpa using signed, recorded⟩
        (by simpa using source) (by simpa using last) waits (by simpa using original)

theorem accepted_of_judgeOpening {content : OpeningContent}
    (form : block.content = .opening content)
    (judged : judgeOpening constants hint block content tables = .ok (.accepted entry)) :
    Accepted constants hint block tables entry := by
  unfold judgeOpening at judged
  simp only [stored, Store.hasBlock, Store.hasAccount, Store.account?, Store.receivable?,
    Except.mapError, Except.map, bind, Except.bind, pure, Except.pure] at judged
  obtain ⟨absent, judged⟩ := passed judged
  obtain ⟨signed, judged⟩ := passed judged
  obtain ⟨source, judged⟩ := passed judged
  obtain ⟨unopened, judged⟩ := passed judged
  split at judged
  case h_2 => simp [refuse] at judged
  next receivable waits =>
  obtain ⟨owned, judged⟩ := passed judged
  obtain ⟨original, judged⟩ := passed judged
  obtain rfl := Judgement.accepted.inj (Except.ok.inj judged)
  exact .opening form ((tables.blocks.contains_eq_false_iff _).mp (by simpa using absent))
    (by simpa using signed) (by simpa using source) (by simpa using unopened) waits owned
    (by simpa using original)

theorem accepted_of_judgeChange {content : ChangeContent} (form : block.content = .change content)
    (judged : judgeChange hint block content tables = .ok (.accepted entry)) :
    Accepted constants hint block tables entry := by
  rw [judgeChange_eq hint tables form] at judged
  obtain ⟨absent, position, account, fronted, judged⟩ := of_judgeAfter judged
  simp only [frontierRecord_eq, bind, Except.bind, pure, Except.pure] at judged
  cases recorded : tables.accounts.get? account with
  | none => simp [recorded] at judged
  | some record =>
      simp only [recorded] at judged
      obtain ⟨signed, judged⟩ := passed judged
      obtain rfl := Judgement.accepted.inj (Except.ok.inj judged)
      exact .change form ⟨absent, position, fronted, by simpa using signed, recorded⟩

theorem accepted_of_judgeTransfer {content : StateContent} (form : block.content = .state content)
    (judged : judgeTransfer hint block content tables = .ok (.accepted entry)) :
    Accepted constants hint block tables entry := by
  unfold judgeTransfer at judged
  simp only [stored, Store.hasBlock, Store.account?, Store.receivable?,
    Except.mapError, bind, Except.bind, pure, Except.pure] at judged
  obtain ⟨absent, judged⟩ := passed judged
  obtain ⟨signed, judged⟩ := passed judged
  obtain ⟨owned, judged⟩ := passed judged
  have fresh := (tables.blocks.contains_eq_false_iff _).mp (Bool.eq_false_of_not_eq_true absent)
  have vouched : isVouchedOrSigned hint .valid block content.account := by simpa using signed
  cases recorded : tables.accounts.get? content.account with
  | none =>
      simp only [recorded, Option.isSome_none, Bool.false_and, Option.map_none, Option.getD_none,
        Bool.not_false, Bool.true_and, Bool.false_eq_true, if_false] at judged
      obtain ⟨first, judged⟩ := passed judged
      obtain ⟨linked, judged⟩ := passed judged
      rw [if_neg linked] at judged
      obtain ⟨source, judged⟩ := passed judged
      split at judged
      case h_2 => simp [refuseAfter] at judged
      next receivable waits =>
      obtain ⟨gains, judged⟩ := passed judged
      obtain rfl := Judgement.accepted.inj (Except.ok.inj judged)
      rw [not_not.mp gains, Bool.eq_false_of_not_eq_true linked]
      exact .incoming form fresh vouched
        ⟨recorded, by simpa using first, by simp, by simpa using owned⟩
        (Amount.not_lt_zero _) (by simpa using linked) (by simpa using source) waits
        (not_not.mp gains)
  | some record =>
      simp only [recorded, Option.isSome_some, Bool.true_and, Option.map_some,
        Option.getD_some] at judged
      obtain ⟨later, judged⟩ := passed judged
      obtain ⟨_, judged⟩ := passed judged
      obtain ⟨last, judged⟩ := passed judged
      have continues : Continues tables content (some record) :=
        ⟨recorded, by simpa using last, by simpa using later, by simpa using owned⟩
      by_cases spends : content.balance < record.balance
      · simp only [spends, decide_true, Bool.not_true, Bool.false_and, if_true] at judged
        obtain rfl := Judgement.accepted.inj (Except.ok.inj judged)
        exact .outgoing form fresh vouched continues spends
      · simp only [spends, decide_false, Bool.not_false, Bool.true_and, Bool.false_eq_true,
          if_false] at judged
        by_cases linked : content.link = .zero
        · rw [if_pos ((Identifier.isZero_iff _).mpr linked)] at judged
          obtain ⟨keeps, judged⟩ := passed judged
          have noGain : content.balance.wrappingSub record.balance = .zero := by simpa using keeps
          rw [noGain, linked] at judged
          obtain rfl := Judgement.accepted.inj (Except.ok.inj judged)
          exact .standing form fresh vouched continues linked
            ((Amount.wrappingSub_eq_zero_iff _ _).mp noGain)
        · simp only [(Identifier.isZero_eq_false_iff _).mpr linked, Bool.not_false,
            Bool.false_eq_true, if_false] at judged
          obtain ⟨source, judged⟩ := passed judged
          split at judged
          case h_2 => simp [refuseAfter] at judged
          next receivable waits =>
          obtain ⟨gains, judged⟩ := passed judged
          obtain rfl := Judgement.accepted.inj (Except.ok.inj judged)
          rw [not_not.mp gains]
          exact .incoming form fresh vouched continues spends linked (by simpa using source) waits
            (not_not.mp gains)

theorem accepted_of_judgeUpgrade {content : StateContent} (form : block.content = .state content)
    (judged : judgeUpgrade constants hint block content tables = .ok (.accepted entry)) :
    Accepted constants hint block tables entry := by
  unfold judgeUpgrade at judged
  simp only [stored, Store.hasBlock, Store.account?, representativeOfBlock?, Store.block?,
    Except.mapError, bind, Except.bind, pure, Except.pure] at judged
  obtain ⟨absent, judged⟩ := passed judged
  obtain ⟨signed, judged⟩ := passed judged
  obtain ⟨owned, judged⟩ := passed judged
  have fresh := (tables.blocks.contains_eq_false_iff _).mp (Bool.eq_false_of_not_eq_true absent)
  have vouched : isVouchedOrSigned hint .validEpoch block
      ((constants.epochs.signer? content.link).getD .zero) := by simpa using signed
  cases recorded : tables.accounts.get? content.account with
  | none =>
      simp only [recorded] at judged
      obtain ⟨first, judged⟩ := passed judged
      obtain ⟨unnamed, judged⟩ := passed judged
      split at judged
      case h_2 => simp [refuseAfter] at judged
      next epoch leads =>
      obtain ⟨keeps, judged⟩ := passed judged
      obtain rfl := Judgement.accepted.inj (Except.ok.inj judged)
      exact .upgrade form fresh vouched
        ⟨recorded, by simpa using first, by simp, by simpa using owned⟩
        (fun _ => by simpa using unnamed) (by simp) leads (by simp) (not_not.mp keeps)
  | some record =>
      simp only [recorded] at judged
      obtain ⟨later, judged⟩ := passed judged
      obtain ⟨agrees, judged⟩ := passed judged
      split at judged
      case h_2 => simp [refuseAfter] at judged
      next epoch leads =>
      obtain ⟨sequential, judged⟩ := passed judged
      obtain ⟨keeps, judged⟩ := passed judged
      obtain rfl := Judgement.accepted.inj (Except.ok.inj judged)
      simp only [Bool.or_eq_true, Identifier.isZero_iff, decide_eq_true_eq, not_or,
        not_not] at later
      refine .upgrade form fresh vouched
        ⟨recorded, later.2, fun _ => later.1, by simpa using owned⟩ (by simp) ?_ leads ?_
        (not_not.mp keeps)
      · rintro _ ⟨⟩
        exact not_not.mp agrees
      · rintro _ ⟨⟩
        simpa using sequential

private theorem exists_refuseEpochGap (constants : LedgerConstants) (hint : Verification)
    (block : Block) (content : StateContent) : ∃ verdict verified, verdict ≠ .progress ∧
      refuseEpochGap constants hint block content = refuse verdict verified := by
  unfold refuseEpochGap
  split
  · exact ⟨_, _, by decide, rfl⟩
  split
  · exact ⟨_, _, by decide, rfl⟩
  split
  · exact ⟨_, _, by decide, rfl⟩
  · exact ⟨_, _, by decide, rfl⟩

theorem accepted_of_judgeState {content : StateContent} (form : block.content = .state content)
    (judged : judgeState constants hint block content tables = .ok (.accepted entry)) :
    Accepted constants hint block tables entry := by
  unfold judgeState at judged
  simp only [balance?, stored, Store.block?, Except.mapError, bind, Except.bind, pure,
    Except.pure] at judged
  split at judged
  · exact accepted_of_judgeTransfer form judged
  split at judged
  · split at judged
    · exact accepted_of_judgeUpgrade form judged
    · exact accepted_of_judgeTransfer form judged
  split at judged
  · obtain ⟨verdict, verified, -, refused⟩ := exists_refuseEpochGap constants hint block content
    simp [refused, refuse] at judged
  · split at judged
    · exact accepted_of_judgeUpgrade form judged
    · exact accepted_of_judgeTransfer form judged

/-- A block is accepted only if it passes all checks for its kind. -/
theorem accepted_of_judge
    (judged : judge constants hint block tables = .ok (.accepted entry)) :
    Accepted constants hint block tables entry := by
  unfold judge at judged
  cases form : block.content with
  | send content =>
      simp only [form] at judged
      exact accepted_of_judgeSend form judged
  | receive content =>
      simp only [form] at judged
      exact accepted_of_judgeReceive form judged
  | opening content =>
      simp only [form] at judged
      exact accepted_of_judgeOpening form judged
  | change content =>
      simp only [form] at judged
      exact accepted_of_judgeChange form judged
  | state content =>
      simp only [form] at judged
      exact accepted_of_judgeState form judged

end Inversion

/-! ## Refusals -/

/-- A judgement does not refuse a block with the verdict that it is part of the ledger now. -/
def Judgement.Declines : Judgement → Prop
  | .refused receipt => receipt.verdict ≠ .progress
  | .accepted _ => True

section Refusal

variable {σ : Type} [Store σ] {constants : LedgerConstants} {hint : Verification} {block : Block}
  {store : σ} {verdict : Verdict}

theorem declines_refuse (isRefusal : verdict ≠ .progress) (verified : Verification) :
    (refuse verdict verified).Declines := isRefusal

theorem declines_refuseAfter (isRefusal : verdict ≠ .progress) (verified : Verification)
    (balance : Amount) : (refuseAfter verdict verified balance).Declines := isRefusal

private theorem declines_judgeLegacy (content : Content) (legacy : content.kind.isLegacy)
    (form : block.content = content) :
    Gives Judgement.Declines (judge constants hint block store) := by
  unfold judge
  rw [form]
  cases content with
  | state => simp [Content.kind, BlockKind.isLegacy] at legacy
  | _ =>
      simp only [judgeSend, judgeReceive, judgeOpening, judgeChange]
      repeat' first
        | exact .pure (declines_refuse (by decide) _)
        | exact .pure trivial
        | refine .ite (fun _ => ?_) fun _ => ?_
        | refine .bind (.self _) fun _ _ => ?_
        | split

private theorem declines_judgeTransfer (content : StateContent) :
    Gives Judgement.Declines (judgeTransfer hint block content store) := by
  unfold judgeTransfer
  repeat' first
    | exact .pure (declines_refuse (by decide) _)
    | exact .pure (declines_refuseAfter (by decide) _ _)
    | exact .pure trivial
    | refine .ite (fun _ => ?_) fun _ => ?_
    | refine .bind (.self _) fun _ _ => ?_
    | split

private theorem declines_judgeUpgrade (content : StateContent) :
    Gives Judgement.Declines (judgeUpgrade constants hint block content store) := by
  unfold judgeUpgrade
  repeat' first
    | exact .pure (declines_refuse (by decide) _)
    | exact .pure (declines_refuseAfter (by decide) _ _)
    | exact .pure trivial
    | refine .ite (fun _ => ?_) fun _ => ?_
    | refine .bind (.self _) fun _ _ => ?_
    | split

private theorem declines_judgeState (content : StateContent) :
    Gives Judgement.Declines (judgeState constants hint block content store) := by
  obtain ⟨verdict, verified, isRefusal, refused⟩ :=
    exists_refuseEpochGap constants hint block content
  exact gives_judgeState (declines_judgeTransfer content) (declines_judgeUpgrade content)
    fun _ => refused ▸ declines_refuse isRefusal verified

/-- No refusal is taken for progress. -/
theorem declines_judge : Gives Judgement.Declines (judge constants hint block store) := by
  cases form : block.content with
  | state content =>
      unfold judge
      rw [form]
      exact declines_judgeState content
  | _ => exact declines_judgeLegacy _ rfl form

end Refusal

end Ledger

end AccountChains
