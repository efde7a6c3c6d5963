import AccountChains.Proofs.Ledger.Acceptance

/-!
Contract: acceptance in two ledgers that agree.

Two ledgers agree if the blocks that both have are stored with the same sidebands,
up to the times at which they were taken in. A block that suits what it builds on
in one ledger suits it in the other as well, as soon as all of it is there.

Owns: sidebands up to time, agreement, and `suits_agrees`. Does not own: what
judging says while something is missing.
-/

namespace AccountChains

open BlockTable Tables

/-- A stored block without the time at which it was taken in. -/
def StoredBlock.timeless (stored : StoredBlock) : StoredBlock :=
  { stored with sideband := { stored.sideband with timestamp := .zero } }

/-- Two stored blocks differ at most in the time at which they were taken in. -/
def StoredBlock.Alike (left right : StoredBlock) : Prop := left.timeless = right.timeless

namespace StoredBlock.Alike

variable {left right other : StoredBlock}

theorem refl (stored : StoredBlock) : stored.Alike stored := rfl

theorem symm (alike : left.Alike right) : right.Alike left := Eq.symm alike

theorem trans (first : left.Alike right) (second : right.Alike other) : left.Alike other :=
  Eq.trans first second

theorem block_eq (alike : left.Alike right) : left.block = right.block :=
  (congrArg StoredBlock.block alike : left.timeless.block = right.timeless.block)

theorem account_eq (alike : left.Alike right) : left.sideband.account = right.sideband.account :=
  congrArg (fun stored => stored.sideband.account) alike

theorem height_eq (alike : left.Alike right) : left.sideband.height = right.sideband.height :=
  congrArg (fun stored => stored.sideband.height) alike

theorem balance_eq (alike : left.Alike right) : left.sideband.balance = right.sideband.balance :=
  congrArg (fun stored => stored.sideband.balance) alike

theorem details_eq (alike : left.Alike right) : left.sideband.details = right.sideband.details :=
  congrArg (fun stored => stored.sideband.details) alike

theorem sourceEpoch_eq (alike : left.Alike right) :
    left.sideband.sourceEpoch = right.sideband.sourceEpoch :=
  congrArg (fun stored => stored.sideband.sourceEpoch) alike

theorem transfer_eq (alike : left.Alike right) : left.transfer = right.transfer := by
  unfold StoredBlock.transfer
  rw [alike.block_eq, alike.details_eq]

/-- A block taken in at another time. -/
theorem retimed (block : Block) (sideband : Sideband) (now : Timestamp) :
    Alike ⟨block, sideband⟩ ⟨block, { sideband with timestamp := now }⟩ := rfl

end StoredBlock.Alike

/-- The blocks that both tables have are alike. -/
def BlockTable.Agrees (left right : BlockTable) : Prop :=
  ∀ {hash leftBlock rightBlock}, left.get? hash = some leftBlock →
    right.get? hash = some rightBlock → leftBlock.Alike rightBlock

/-- What the first table has, the second one has as well, up to time. -/
def BlockTable.Within (part whole : BlockTable) : Prop :=
  ∀ {hash stored}, part.get? hash = some stored →
    ∃ other, whole.get? hash = some other ∧ other.Alike stored

namespace BlockTable

variable {left right whole : BlockTable}

theorem Within.refl (blocks : BlockTable) : Within blocks blocks :=
  fun found => ⟨_, found, .refl _⟩

/-- Two parts of one table agree. -/
theorem Within.agrees (leftWithin : Within left whole) (rightWithin : Within right whole) :
    Agrees left right := by
  intro hash leftBlock rightBlock leftFound rightFound
  obtain ⟨first, firstFound, firstAlike⟩ := leftWithin leftFound
  obtain ⟨second, secondFound, secondAlike⟩ := rightWithin rightFound
  obtain rfl := Option.some.inj (firstFound.symm.trans secondFound)
  exact firstAlike.symm.trans secondAlike

end BlockTable

namespace Ledger

section Transport

variable {constants : LedgerConstants} {hint : Verification} {left right : Tables}
  {stored other : StoredBlock} {hash : BlockHash}
  (leftCoherent : left.Coherent constants) (rightCoherent : right.Coherent constants)
  (sound : constants.Sound) (agrees : Agrees left.blocks right.blocks)

include leftCoherent rightCoherent agrees

section Before

variable (alike : other.Alike stored)
  (leftPresent : stored.block.previous ≠ .zero →
    ∃ before, left.blocks.get? stored.block.previous = some before)
  (rightPresent : stored.block.previous ≠ .zero →
    ∃ before, right.blocks.get? stored.block.previous = some before)

include alike leftPresent rightPresent

/-- What is read from the block before is the same in both ledgers. -/
theorem before_eq {α : Type} (read : StoredBlock → α)
    (timeless : ∀ {first second : StoredBlock}, first.Alike second → read first = read second) :
    (right.blocks.get? other.block.previous).map read
      = (left.blocks.get? stored.block.previous).map read := by
  rw [alike.block_eq]
  by_cases isFirst : stored.block.previous = .zero
  · rw [isFirst, leftCoherent.zero_absent, rightCoherent.zero_absent]
  · obtain ⟨leftBefore, leftFound⟩ := leftPresent isFirst
    obtain ⟨rightBefore, rightFound⟩ := rightPresent isFirst
    rw [leftFound, rightFound, Option.map_some, Option.map_some,
      timeless (agrees leftFound rightFound)]

theorem balanceBefore_agrees :
    balanceBefore right.blocks other = balanceBefore left.blocks stored := by
  have before := before_eq leftCoherent rightCoherent agrees alike leftPresent rightPresent
    (fun found => found.sideband.balance) fun same => same.balance_eq
  unfold balanceBefore
  rw [before]

theorem epochBefore_agrees :
    epochBefore right.blocks other = epochBefore left.blocks stored := by
  have before := before_eq leftCoherent rightCoherent agrees alike leftPresent rightPresent
    (fun found => found.sideband.details.epoch) fun same => congrArg _ same.details_eq
  unfold epochBefore
  rw [before]

end Before

include sound

/-- A send that both ledgers have takes the same amount in both. -/
theorem sentAmount_agrees {send otherSend : StoredBlock}
    (leftFound : left.blocks.get? hash = some send)
    (rightFound : right.blocks.get? hash = some otherSend) :
    sentAmount right.blocks otherSend = sentAmount left.blocks send := by
  have alike := agrees leftFound rightFound
  have before := balanceBefore_agrees leftCoherent rightCoherent agrees alike.symm
    (fun later => (leftCoherent.later_block sound leftFound later).imp fun _ found => found.1)
    fun later => by
      rw [alike.block_eq] at later ⊢
      exact (rightCoherent.later_block sound rightFound later).imp fun _ found => found.1
  unfold sentAmount
  rw [before, alike.balance_eq]

/-- The same block names the representative in both ledgers. -/
theorem namedBy_agrees {naming : BlockHash} (named : NamedBy left.blocks hash naming)
    (rightFound : right.blocks.get? hash = some other) :
    NamedBy right.blocks hash naming ∧ ∃ leftNaming rightNaming,
      left.blocks.get? naming = some leftNaming ∧ right.blocks.get? naming = some rightNaming := by
  induction named generalizing other with
  | here found names =>
      exact ⟨.here rightFound ((agrees found rightFound).block_eq ▸ names), _, _, found, rightFound⟩
  | @earlier hash naming stored found silent rest inductionHypothesis =>
      have same := (agrees found rightFound).block_eq
      have later : stored.block.previous ≠ .zero := by
        intro isFirst
        rw [isFirst] at rest
        have zeroAbsent := leftCoherent.zero_absent
        cases rest with
        | here zeroFound => simp [zeroAbsent] at zeroFound
        | earlier zeroFound => simp [zeroAbsent] at zeroFound
      obtain ⟨before, beforeFound, -⟩ :=
        rightCoherent.later_block sound rightFound (same ▸ later)
      obtain ⟨named, both⟩ := inductionHypothesis (same ▸ beforeFound)
      exact ⟨.earlier rightFound (same ▸ silent) (same ▸ named), both⟩

section Suiting

variable (alike : other.Alike stored)
  (previous : stored.block.previous ≠ .zero →
    ∃ before, right.blocks.get? stored.block.previous = some before)

include alike previous

omit leftCoherent rightCoherent sound in
theorem follows_agrees (later : stored.block.previous ≠ .zero) {before : StoredBlock}
    (found : left.blocks.get? stored.block.previous = some before)
    (follows : Follows before stored) :
    ∃ otherBefore, right.blocks.get? other.block.previous = some otherBefore ∧
      Follows otherBefore other := by
  obtain ⟨otherBefore, otherFound⟩ := previous later
  have same := agrees found otherFound
  refine ⟨otherBefore, alike.block_eq ▸ otherFound, ?_, ?_, ?_⟩
  · rw [← same.account_eq, alike.account_eq, follows.account]
  · rw [← same.height_eq, alike.height_eq, follows.height]
  · rw [alike.block_eq, ← same.block_eq]
    exact follows.legacy

theorem settles_agrees (settles : Settles left.blocks stored)
    (leftPrevious : stored.block.previous ≠ .zero →
      ∃ before, left.blocks.get? stored.block.previous = some before)
    (source : ∀ source, stored.transfer = .receives source →
      ∃ send, right.blocks.get? source = some send) :
    Settles right.blocks other := by
  have balance := balanceBefore_agrees leftCoherent rightCoherent agrees alike leftPrevious previous
  unfold Settles at settles ⊢
  rw [alike.transfer_eq, balance, alike.balance_eq, alike.sourceEpoch_eq, alike.account_eq,
    alike.block_eq]
  cases transfer : stored.transfer with
  | sends destination => simpa only [transfer] using settles
  | neither => simpa only [transfer] using settles
  | receives origin =>
      simp only [transfer] at settles ⊢
      obtain ⟨send, found, sends, gained, epoch⟩ := settles
      obtain ⟨otherSend, otherFound⟩ := source origin transfer
      have same := agrees found otherFound
      refine ⟨otherSend, otherFound, same.transfer_eq ▸ sends, ?_, ?_⟩
      · rw [sentAmount_agrees leftCoherent rightCoherent sound agrees found otherFound, gained]
      · rw [epoch, same.details_eq]

theorem justified_agrees (justified : Justified left.blocks stored)
    (source : ∀ source, stored.transfer = .receives source →
      ∃ send, right.blocks.get? source = some send) :
    Justified right.blocks other := by
  have leftPrevious : stored.block.previous ≠ .zero →
      ∃ before, left.blocks.get? stored.block.previous = some before :=
    justified.previous_found
  have balance := balanceBefore_agrees leftCoherent rightCoherent agrees alike leftPrevious previous
  have epoch := epochBefore_agrees leftCoherent rightCoherent agrees alike leftPrevious previous
  refine ⟨?_, ?_, ?_, ?_, ?_, ?_, ?_⟩
  · rw [alike.block_eq, alike.height_eq]
    exact justified.first
  · intro later
    rw [alike.block_eq] at later
    obtain ⟨before, found, follows⟩ := justified.follows later
    exact follows_agrees agrees alike previous later found follows
  · exact settles_agrees leftCoherent rightCoherent sound agrees alike previous justified.settles
      leftPrevious source
  · have reflects := justified.reflects
    unfold Reflects at reflects ⊢
    rwa [alike.block_eq, balance, alike.balance_eq, alike.account_eq, alike.details_eq]
  · rw [alike.block_eq, alike.details_eq]
    exact justified.legacy
  · rw [alike.block_eq, alike.details_eq, alike.transfer_eq, epoch]
    exact justified.upgrades
  · rw [alike.details_eq, alike.sourceEpoch_eq, epoch]
    exact justified.stays

theorem permitted_agrees (permitted : Permitted constants left.blocks stored)
    (leftPrevious : stored.block.previous ≠ .zero →
      ∃ before, left.blocks.get? stored.block.previous = some before) :
    Permitted constants right.blocks other := by
  have balance := balanceBefore_agrees leftCoherent rightCoherent agrees alike leftPrevious previous
  unfold Permitted at permitted ⊢
  rw [alike.block_eq]
  cases form : stored.block.content with
  | send | receive => trivial
  | opening content => simpa only [form] using permitted
  | change content => simpa only [form] using permitted
  | state content =>
      simp only [form] at permitted ⊢
      obtain ⟨owned, role⟩ := permitted
      refine ⟨owned, ?_⟩
      rw [alike.details_eq]
      split at role
      · next isEpoch =>
          rw [if_pos isEpoch]
          refine ⟨alike.details_eq ▸ role.leads, alike.block_eq ▸ role.unnamed, fun later => ?_⟩
          rw [alike.block_eq] at later ⊢
          obtain ⟨naming, found, named, namingFound, names⟩ := role.agrees later
          obtain ⟨before, beforeFound⟩ := previous later
          obtain ⟨otherNamed, leftNaming, rightNaming, leftFound, rightFound⟩ :=
            namedBy_agrees leftCoherent rightCoherent sound agrees named beforeFound
          obtain rfl := Option.some.inj (namingFound.symm.trans leftFound)
          exact ⟨naming, rightNaming, otherNamed, rightFound,
            (agrees leftFound rightFound).block_eq ▸ names⟩
      · next notEpoch =>
          rw [if_neg notEpoch]
          exact ⟨balance.symm ▸ role.moves, alike.details_eq ▸ role.receives,
            alike.block_eq ▸ role.linked⟩

/-- A block suits what it builds on in one ledger if it does so in another one that agrees. -/
theorem suits_agrees (suits : Suits constants hint left.blocks stored)
    (source : ∀ source, stored.transfer = .receives source →
      ∃ send, right.blocks.get? source = some send) :
    Suits constants hint right.blocks other where
  justified := justified_agrees leftCoherent rightCoherent sound agrees alike previous
    suits.justified source
  authorized := by
    have authorized := suits.authorized
    unfold Authorized at authorized ⊢
    rwa [alike.block_eq, alike.details_eq, alike.account_eq]
  permitted := permitted_agrees leftCoherent rightCoherent sound agrees alike previous
    suits.permitted suits.justified.previous_found

end Suiting

end Transport

end Ledger

end AccountChains
