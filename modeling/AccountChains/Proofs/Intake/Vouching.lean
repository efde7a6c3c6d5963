import AccountChains.Proofs.Intake.Arrival
import AccountChains.Proofs.Ledger.Custody

/-!
Contract: whose signatures get through the intake.

A block is checked ahead of the ledger against one key, and the ledger then trusts
what the check told. The key is the right one, unless the submitter claimed an account
for the block: then it is the key of that account, and the ledger does not ask again.
What is known about a block stays with it in the queues, and also while it is parked
or shared with a copy of it.

So whatever the threads do and in whichever order, a stored block is signed by its
account or, if it is an epoch block, by the signer of its link, or else by an account
that was claimed for it.

Owns: what a run hands in, and that each step of each thread keeps what is known
backed. Does not own: what the ledger makes of it.
-/

namespace AccountChains

open BlockTable Ledger Tables

/-! ## What is handed in -/

namespace Action

/-- The blocks that an action hands in. -/
def blocks : Action → List Block
  | .add block _ | .force block | .beginDirect block _ => [block]
  | .addKnown known _ => [known.block]
  | .start | .stop | .join | .advance _ | .advanceDirect => []

/-- The accounts that an action claims to own a hash. -/
def claims : Action → List (BlockHash × Account)
  | .addKnown known _ => [(known.block.hash, known.account)]
  | .add .. | .force _ | .beginDirect .. | .start | .stop | .join | .advance _
  | .advanceDirect => []

/-- An action brings no knowledge about a signature. -/
def Unhinted : Action → Prop
  | .addKnown known _ => known.verified = .unknown
  | .add .. | .force _ | .beginDirect .. | .start | .stop | .join | .advance _
  | .advanceDirect => True

end Action

/-- What the actions of a run hand in, next to the genesis block. -/
def Submissions.ofRun (constants : LedgerConstants) (actions : List Action) : Submissions :=
  ⟨constants.genesis :: actions.flatMap Action.blocks, actions.flatMap Action.claims⟩

/-- An action hands in nothing but what belongs to some submissions, and no knowledge. -/
structure Action.Within (submissions : Submissions) (action : Action) : Prop where
  blocks : ∀ block ∈ action.blocks, block ∈ submissions.blocks
  claims : ∀ claim ∈ action.claims, claim ∈ submissions.claims
  unhinted : action.Unhinted

theorem Submissions.within_ofRun {constants : LedgerConstants} {actions : List Action}
    (unhinted : ∀ action ∈ actions, action.Unhinted) {action : Action} (done : action ∈ actions) :
    action.Within (ofRun constants actions) where
  blocks _ handed := List.mem_cons_of_mem _ (List.mem_flatMap.mpr ⟨action, done, handed⟩)
  claims _ claimed := List.mem_flatMap.mpr ⟨action, done, claimed⟩
  unhinted := unhinted action done

/-! ## Queued blocks -/

namespace QueuedBlock

variable {submissions : Submissions} {links : EpochLinks} {item : QueuedBlock}

/-- What comes with a queued block is attested. -/
def Attested (submissions : Submissions) (links : EpochLinks) (item : QueuedBlock) : Prop :=
  submissions.Attests links item.block item.account item.verified

/-- What comes with a block is attested, and it is known which key it is to be checked against. -/
structure Checkable (submissions : Submissions) (links : EpochLinks) (item : QueuedBlock) :
    Prop where
  attested : item.Attested submissions links
  signer : item.account ≠ .zero ∨ item.NamesAccount

theorem signer_of_needsVerification (needs : item.needsVerification) :
    item.account ≠ .zero ∨ item.NamesAccount := by
  simp only [needsVerification, Bool.and_eq_true, Bool.or_eq_true, beq_iff_eq] at needs
  rcases needs.2 with (isState | isOpening) | named
  · exact .inr (.inl isState)
  · exact .inr (.inr isOpening)
  · exact .inl (by simpa using named)

/-- A block that names its account is owned by it. -/
theorem NamesAccount.owned (names : item.NamesAccount)
    (submitted : item.block ∈ submissions.blocks) :
    submissions.Owns item.block.hash item.block.account := by
  unfold NamesAccount Block.kind at names
  unfold Block.account
  cases form : item.block.content with
  | send | receive | change => simp [form, Content.kind] at names
  | opening content => exact .of_opening submitted form
  | state content => exact .of_state submitted form

/-- The check ahead of the ledger is made against a key that backs its outcome. -/
theorem Checkable.backs_conclusion (checkable : item.Checkable submissions links)
    {isAuthentic : Bool}
    (signed : isAuthentic = true → item.block.isSignedBy (item.expectedSigner links) = true) :
    submissions.Backs links item.block (item.conclusion links isAuthentic) := by
  obtain ⟨⟨submitted, -, claimed⟩, signer⟩ := checkable
  unfold conclusion
  cases isAuthentic with
  -- A failed check tells nothing that would need a signature.
  | false => cases (item.epochSigner? links).isSome <;> constructor
  | true =>
      have isSigned := signed rfl
      unfold expectedSigner at isSigned
      cases epochSigner : item.epochSigner? links with
      | some signer =>
          simp only [epochSigner] at isSigned
          obtain ⟨-, registered⟩ := Option.ite_none_left_eq_some.mp epochSigner
          refine .signer ?_
          rw [registered]
          exact isSigned
      | none =>
          simp only [epochSigner] at isSigned
          by_cases unnamed : item.account = .zero
          · simp only [if_pos ((Identifier.isZero_iff _).mpr unnamed)] at isSigned
            have names := signer.resolve_left (not_not_intro unnamed)
            exact .owner (names.owned submitted) isSigned
          · simp only [if_neg (mt (Identifier.isZero_iff _).mp unnamed)] at isSigned
            exact .vouched ⟨_, claimed unnamed, unnamed, isSigned⟩

theorem Checkable.backs_checked (checkable : item.Checkable submissions links) :
    submissions.Backs links item.block (item.checked links) :=
  checkable.backs_conclusion fun signed => signed

/-- A block stays attested when more is known about its signature, if this is backed. -/
theorem Attested.known {verified : Verification} (attested : item.Attested submissions links)
    (backed : submissions.Backs links item.block verified) :
    Attested submissions links { item with verified } :=
  ⟨attested.submitted, backed, attested.claimed⟩

theorem attested_plain {handle : Handle} (submitted : handle.block ∈ submissions.blocks)
    (modified : Timestamp) : (plain handle modified).Attested submissions links :=
  ⟨submitted, .unknown, fun named => absurd rfl named⟩

end QueuedBlock

/-! ## Shared copies -/

namespace Interner

variable {submissions : Submissions} {interner : Interner} {offered : Handle}
  {isHeld : Handle → Bool}

/-- The copies that may be shared have been handed in, and are found under their digests. -/
structure Attested (submissions : Submissions) (interner : Interner) : Prop where
  filed : ∀ key shared, interner.entries.get? key = some shared →
    shared.block ∈ submissions.blocks ∧ digest shared.block = key

theorem attested_empty (submissions : Submissions) : empty.Attested submissions where
  filed _ _ found := absurd found.symm (Option.some_ne_none _)

theorem Attested.sweep (attested : interner.Attested submissions) :
    (interner.sweep isHeld).Attested submissions := by
  refine ⟨fun key shared found => ?_⟩
  rw [Interner.sweep, Table.get?_restrict, Option.filter_eq_some_iff] at found
  exact attested.filed key shared found.1

theorem Attested.enter (attested : interner.Attested submissions)
    (submitted : offered.block ∈ submissions.blocks) :
    (interner.enter isHeld offered).Attested submissions := by
  have entered : Attested submissions ⟨interner.entries.insert (digest offered.block) offered,
      interner.insertions + 1⟩ := by
    refine ⟨fun key shared found => ?_⟩
    rcases Table.of_get?_insert found with ⟨rfl, rfl⟩ | found
    · exact ⟨submitted, rfl⟩
    · exact attested.filed key shared found
  unfold Interner.enter
  dsimp only
  split
  · exact entered.sweep
  · exact entered

/-- The copy to use has the digest of the offered one. -/
theorem Attested.intern (attested : interner.Attested submissions) (isHeld : Handle → Bool)
    (submitted : offered.block ∈ submissions.blocks) :
    ((interner.intern isHeld offered).1.block ∈ submissions.blocks ∧
      digest (interner.intern isHeld offered).1.block = digest offered.block) ∧
    (interner.intern isHeld offered).2.Attested submissions := by
  unfold Interner.intern
  split
  · next shared found =>
      split
      · exact ⟨attested.filed _ _ found, attested⟩
      · exact ⟨⟨submitted, rfl⟩, attested.enter submitted⟩
  · exact ⟨⟨submitted, rfl⟩, attested.enter submitted⟩

end Interner

/-- A block may be exchanged for a copy with the same digest. -/
theorem QueuedBlock.Attested.shared {submissions : Submissions} {links : EpochLinks}
    {item : QueuedBlock} {copy : Handle} (attested : item.Attested submissions links)
    (collisionFree : submissions.CollisionFree) (submitted : copy.block ∈ submissions.blocks)
    (sameDigest : Interner.digest copy.block = Interner.digest item.block) :
    QueuedBlock.Attested submissions links { item with handle := copy } := by
  obtain ⟨itemSubmitted, backed, claimed⟩ := attested
  obtain ⟨sameHash, sameSignature⟩ :=
    collisionFree.same_of_digest itemSubmitted submitted sameDigest.symm
  exact ⟨submitted, backed.copied collisionFree itemSubmitted submitted sameHash sameSignature,
    fun named => sameHash ▸ claimed named⟩

/-! ## Queues -/

namespace Queues

variable {submissions : Submissions} {links : EpochLinks} {queues : Queues} {item : QueuedBlock}

/-- What the queues hold is attested, and what waits for its check can be checked. -/
structure Attested (submissions : Submissions) (links : EpochLinks) (queues : Queues) : Prop where
  ready : ∀ item ∈ queues.ready, item.Attested submissions links
  unverified : ∀ item ∈ queues.unverified, item.Checkable submissions links
  forced : ∀ handle ∈ queues.forced, handle.block ∈ submissions.blocks

/-- What is taken from the queues is attested. -/
def Taken.Attested (submissions : Submissions) (links : EpochLinks) : Taken → Prop
  | .forced handle => handle.block ∈ submissions.blocks
  | .ready item => item.Attested submissions links

theorem attested_empty (rolledBackMax : Nat) :
    (empty rolledBackMax).Attested submissions links := by
  refine ⟨?_, ?_, ?_⟩ <;> simp [empty]

namespace Attested

variable (attested : queues.Attested submissions links)

include attested

theorem enqueue (hash : BlockHash) (isAttested : item.Attested submissions links) :
    (queues.enqueue hash item).Attested submissions links := by
  refine ⟨fun other member => ?_, fun other member => ?_, attested.forced⟩
  · rcases Lanes.mem_ready_enqueue.mp member with before | ⟨-, rfl⟩
    · exact attested.ready other before
    · exact isAttested
  · rcases Lanes.mem_unverified_enqueue.mp member with before | ⟨needs, rfl⟩
    · exact attested.unverified other before
    · exact ⟨isAttested, QueuedBlock.signer_of_needsVerification needs⟩

theorem force {handle : Handle} (submitted : handle.block ∈ submissions.blocks) :
    (queues.force handle).Attested submissions links :=
  { attested with
    forced := List.forall_mem_append.mpr
      ⟨attested.forced, List.forall_mem_singleton.mpr submitted⟩ }

theorem drain (limit : Nat) : (∀ item ∈ (queues.drain limit).1, item.Checkable submissions links) ∧
    (queues.drain limit).2.Attested submissions links :=
  ⟨fun item member => attested.unverified item (List.mem_of_mem_take member),
    { attested with
      unverified := fun item member => attested.unverified item (List.mem_of_mem_drop member) }⟩

theorem release (hash : BlockHash) : (queues.release hash).Attested submissions links :=
  { attested with }

theorem foldl_release (items : List QueuedBlock) :
    (items.foldl (fun queues item => queues.release item.hash) queues).Attested submissions
      links := by
  induction items generalizing queues with
  | nil => exact attested
  | cons item rest inductionHypothesis => exact inductionHypothesis (attested.release item.hash)

/-- Blocks come back with what is told about them, if this is backed. -/
theorem settleAll {verdict : QueuedBlock → Verification} (items : List QueuedBlock)
    (told : ∀ item ∈ items, item.Attested submissions links ∧
      submissions.Backs links item.block (verdict item)) :
    (queues.settleAll (items.zip (items.map verdict))).Attested submissions links := by
  induction items generalizing queues with
  | nil => exact attested
  | cons item rest inductionHypothesis =>
      obtain ⟨⟨isAttested, backed⟩, restTold⟩ := List.forall_mem_cons.mp told
      have settled : (queues.settle item (verdict item)).Attested submissions links := by
        unfold settle
        split
        · exact attested.release item.hash
        · exact { attested with
            ready := List.forall_mem_append.mpr
              ⟨attested.ready, List.forall_mem_singleton.mpr (isAttested.known backed)⟩ }
      exact inductionHypothesis settled restTold

theorem take {taken : Taken} {rest : Queues} (takes : queues.take? = some (taken, rest)) :
    taken.Attested submissions links ∧ rest.Attested submissions links := by
  unfold take? at takes
  split at takes
  · next isForced =>
      obtain ⟨rfl, rfl⟩ := Prod.mk.inj (Option.some.inj takes)
      have submitted := attested.forced
      rw [isForced] at submitted
      obtain ⟨isSubmitted, others⟩ := List.forall_mem_cons.mp submitted
      exact ⟨isSubmitted, { attested with forced := others }⟩
  · next ready =>
      obtain ⟨rfl, rfl⟩ := Prod.mk.inj (Option.some.inj takes)
      have areAttested := attested.ready
      rw [ready] at areAttested
      obtain ⟨isAttested, others⟩ := List.forall_mem_cons.mp areAttested
      exact ⟨isAttested, { attested with ready := others }⟩
  · exact nomatch takes

end Attested

end Queues

/-! ## Handling a block -/

/-- Blocks that are to be queued again are attested. -/
def Requeue.Attested (submissions : Submissions) (links : EpochLinks) (requeue : Requeue) : Prop :=
  ∀ waiting ∈ requeue.rest,
    submissions.Attests links waiting.block waiting.account waiting.verified

namespace Bench

variable {submissions : Submissions} {setup : IntakeSetup} {constants : LedgerConstants}
  {bench : Bench Tables} {item : QueuedBlock} {now : Timestamp} {ε : Type}

/-- What is done with a block leaves everything traced, and queues again what is attested. -/
structure Follows (submissions : Submissions) (constants : LedgerConstants)
    (outcome : Except ε (Option Requeue) × Bench Tables) : Prop where
  store : Traced submissions constants outcome.2.store
  requeue : ∀ requeue, outcome.1 = .ok (some requeue) →
    requeue.Attested submissions constants.epochs

theorem Follows.done (traced : Traced submissions constants bench.store) :
    Follows submissions constants ((.ok none, bench) : Except ε (Option Requeue) × Bench Tables) :=
  ⟨traced, by simp⟩

theorem traced_foldl_removeParked (waiting : List (ParkedKey × ParkedBlock)) {tables : Tables}
    (traced : Traced submissions constants tables) : Traced submissions constants
      (waiting.foldl (fun store entry => Store.removeParked entry.1 store) tables) := by
  induction waiting generalizing tables with
  | nil => exact traced
  | cons entry rest inductionHypothesis =>
      exact inductionHypothesis (traced.removeParked entry.1)

theorem follows_takeParked (traced : Traced submissions constants bench.store)
    (settings : IntakeSettings) (dependency : BlockHash) :
    Follows submissions constants (bench.takeParked settings dependency) := by
  have attested : ∀ entry ∈ bench.store.parked.filter fun key => key.dependency == dependency,
      submissions.Attests constants.epochs entry.2.block entry.2.account entry.2.verified := by
    intro entry member
    exact traced.parked ((Table.mem_entries_iff _ _ _).mp (List.mem_filter.mp member).1)
  unfold takeParked
  simp only [parked_eq_filter]
  cases waiting : bench.store.parked.filter fun key => key.dependency == dependency with
  | nil => exact .done traced
  | cons entry rest =>
      rw [waiting] at attested
      refine ⟨?_, ?_⟩
      · dsimp only
        split
        · exact traced_foldl_removeParked _ traced
        · exact traced
      · rintro requeue ⟨⟩ parked member
        obtain ⟨entry, isEntry, rfl⟩ := List.mem_map.mp member
        exact attested entry isEntry

theorem follows_park (traced : Traced submissions constants bench.store)
    (attested : item.Attested submissions constants.epochs) {verified : Verification}
    (backed : submissions.Backs constants.epochs item.block verified) (dependency : BlockHash) :
    Follows submissions constants
      ((.ok none, bench.park item dependency verified) : Except ε (Option Requeue) × _) :=
  .done (traced.putParked (attested.known backed))

theorem follows_follow (traced : Traced submissions constants bench.store)
    (attested : item.Attested submissions constants.epochs) {receipt : Receipt}
    (told : receipt.verdict ≠ .progress →
      submissions.Backs constants.epochs item.block receipt.verified) :
    Follows submissions constants (bench.follow setup.settings now item receipt) := by
  unfold follow
  cases verdict : receipt.verdict with
  | progress =>
      have noted : Traced submissions constants
          (bench.note (.live item.handle .progress)).store := traced
      dsimp only
      split
      · exact follows_takeParked noted _ _
      · exact follows_takeParked traced _ _
  | gapPrevious | gapSource => exact follows_park traced attested (told (by simp [verdict])) _
  | old =>
      dsimp only
      split
      · exact .done traced
      · exact follows_takeParked traced _ _
  | fork =>
      dsimp only
      split
      · exact .done traced
      · exact .done traced
  | _ => exact .done traced

/-- Offering a block leaves everything traced, and queues again what is attested. -/
theorem attested_offer (collisionFree : submissions.CollisionFree) (bench : Bench Tables)
    (now : Timestamp) (traced : Traced submissions setup.constants bench.store)
    (attested : item.Attested submissions setup.constants.epochs) :
    Traced submissions setup.constants (bench.offer setup now item).2.store ∧
      ∀ receipt requeue, (bench.offer setup now item).1 = .ok (receipt, some requeue) →
        requeue.Attested submissions setup.constants.epochs := by
  have kept := keeps_process collisionFree attested.submitted attested.backed now bench.store traced
  unfold offer
  cases outcome : (process setup.constants now item.verified item.block).run bench.store with
  | mk answer written =>
      rw [outcome] at kept
      cases answer with
      | error fault => exact ⟨kept, by simp⟩
      | ok receipt =>
          have follows : Follows submissions setup.constants
              (follow setup.settings now item receipt { bench with
                store := written, metrics := bench.metrics.recordVerdict receipt.verdict }) :=
            follows_follow kept attested
              (backs_of_process attested.submitted attested.backed traced outcome)
          dsimp only
          split
          · next failed =>
              rw [failed] at follows
              exact ⟨follows.store, by simp⟩
          · next requeue _ done =>
              rw [done] at follows
              refine ⟨follows.store, ?_⟩
              rintro _ requeue ⟨⟩
              exact follows.requeue requeue rfl

theorem traced_replace (collisionFree : submissions.CollisionFree) (bench : Bench Tables)
    (traced : Traced submissions constants bench.store) (block : Block) :
    Traced submissions constants (bench.replace block).2.store := by
  unfold replace
  split
  · exact traced
  · exact traced
  · next loser _ =>
      have undone := traced.rollback collisionFree loser
      dsimp only
      split
      · exact undone
      · exact undone

end Bench

/-! ## The threads -/

/-- What the worker has in hand is attested, and the ledger that it writes to is traced. -/
def Worker.Attested (submissions : Submissions) (constants : LedgerConstants) :
    Worker Tables → Prop
  | .verifyingAhead _ drained => ∀ item ∈ drained, item.Checkable submissions constants.epochs
  | .choosing batch | .committing batch => Traced submissions constants batch.store
  | .verifying batch drained => Traced submissions constants batch.store ∧
      ∀ item ∈ drained, item.Checkable submissions constants.epochs
  | .handling batch taken => Traced submissions constants batch.store ∧
      taken.Attested submissions constants.epochs
  | .requeueing batch _ requeue => Traced submissions constants batch.store ∧
      requeue.Attested submissions constants.epochs
  | .absent | .idle | .woken | .opening | .emitting _ | .closing | .finished | .crashed _ => True

/-- The ledger that a call writes to is traced, and what it queues again is attested. -/
structure DirectCall.Attested (submissions : Submissions) (constants : LedgerConstants)
    (call : DirectCall Tables) : Prop where
  store : Traced submissions constants call.store
  requeue : ∀ requeue, call.requeue = some requeue →
    requeue.Attested submissions constants.epochs

namespace Processor

/-- The committed ledger is traced, and everything that is under way is attested. -/
structure Attested (submissions : Submissions) (constants : LedgerConstants)
    (processor : Processor Tables) : Prop where
  store : Traced submissions constants processor.store
  queues : processor.queues.Attested submissions constants.epochs
  interner : processor.interner.Attested submissions
  worker : processor.worker.Attested submissions constants
  direct : ∀ call, processor.direct = some call → call.Attested submissions constants

namespace Attested

variable {submissions : Submissions} {setup : IntakeSetup} {processor next : Processor Tables}
  {item : QueuedBlock} {batch : Batch Tables} {requeue : Requeue}
  (attested : processor.Attested submissions setup.constants)

include attested

/-! ### Arrivals -/

section Arriving

variable (collisionFree : submissions.CollisionFree)

include collisionFree

theorem enqueue (isAttested : item.Attested submissions setup.constants.epochs)
    (queued : processor.enqueue setup item = .ok next) :
    next.Attested submissions setup.constants := by
  obtain ⟨⟨submitted, sameDigest⟩, interned⟩ := attested.interner.intern
    (fun handle => processor.handles.contains handle) isAttested.submitted
  unfold Processor.enqueue at queued
  split at queued
  · exact nomatch queued
  dsimp only at queued
  split at queued
  · obtain rfl := Except.ok.inj queued
    exact { attested with interner := interned }
  -- What gets into the queue may be a copy, about which the same is known.
  · obtain rfl := Except.ok.inj queued
    exact { attested with
      interner := interned
      queues := attested.queues.enqueue _ (isAttested.shared collisionFree submitted sameDigest) }

theorem addParked (parked : ParkedBlock)
    (isAttested : submissions.Attests setup.constants.epochs parked.block parked.account
      parked.verified)
    (queued : processor.addParked setup parked = .ok next) :
    next.Attested submissions setup.constants := by
  have copied : (processor.copy parked.block).2.Attested submissions setup.constants :=
    { attested with }
  have asItem : QueuedBlock.Attested submissions setup.constants.epochs
      (.ofParked processor.copies parked) := isAttested
  exact copied.enqueue collisionFree asItem queued

theorem requeueNext {rest : Option Requeue}
    (isAttested : requeue.Attested submissions setup.constants.epochs)
    (requeued : processor.requeueNext setup requeue = .ok (next, rest)) :
    next.Attested submissions setup.constants ∧
      ∀ other, rest = some other → other.Attested submissions setup.constants.epochs := by
  unfold Processor.requeueNext at requeued
  unfold Requeue.Attested at isAttested
  cases waiting : requeue.rest with
  | nil =>
      simp only [waiting] at requeued
      obtain ⟨rfl, rfl⟩ := Prod.mk.inj (Except.ok.inj requeued)
      exact ⟨{ attested with }, by simp⟩
  | cons parked others =>
      rw [waiting] at isAttested
      obtain ⟨parkedAttested, othersAttested⟩ := List.forall_mem_cons.mp isAttested
      simp only [waiting] at requeued
      cases queued : processor.addParked setup parked with
      | error cause => simp [queued, bind, Except.bind] at requeued
      | ok added =>
          simp only [queued, bind, Except.bind, pure, Except.pure] at requeued
          obtain ⟨rfl, rfl⟩ := Prod.mk.inj (Except.ok.inj requeued)
          refine ⟨attested.addParked collisionFree parked parkedAttested queued, ?_⟩
          rintro other ⟨⟩
          exact othersAttested

end Arriving

/-! ### Steps of the worker -/

theorem putBack (view : Tables) {drained : List QueuedBlock}
    (checkable : ∀ item ∈ drained, item.Checkable submissions setup.constants.epochs) :
    (processor.putBack setup view drained).Attested submissions setup.constants := by
  have told : ∀ item ∈ drained.filter fun item => !Store.hasBlock view item.hash,
      item.Attested submissions setup.constants.epochs ∧
        submissions.Backs setup.constants.epochs item.block
          (item.checked setup.constants.epochs) := by
    intro item member
    have isCheckable := checkable item (List.mem_filter.mp member).1
    exact ⟨isCheckable.attested, isCheckable.backs_checked⟩
  unfold Processor.putBack
  simp only [QueuedBlock.verifyAll_eq]
  exact { attested with queues := (attested.queues.foldl_release _).settleAll _ told }

theorem choose (traced : Traced submissions setup.constants batch.store) (elapsed : Nat) :
    (processor.choose setup.settings elapsed batch).Attested submissions setup.constants := by
  unfold Processor.choose
  split
  · exact { attested with worker := traced }
  split
  · obtain ⟨checkable, queues⟩ :=
      attested.queues.drain setup.settings.maxVerificationBatch.toNat
    exact { attested with queues, worker := ⟨traced, checkable⟩ }
  split
  · next taken rest takes =>
      obtain ⟨isAttested, queues⟩ := attested.queues.take takes
      exact { attested with queues, worker := ⟨traced, isAttested⟩ }
  · exact { attested with worker := traced }

section Handling

variable (collisionFree : submissions.CollisionFree)
  (traced : Traced submissions setup.constants batch.store) (now : Timestamp)

include collisionFree traced

theorem offer (isAttested : item.Attested submissions setup.constants.epochs) :
    (processor.offer setup now item batch).Attested submissions setup.constants := by
  have offered := Bench.attested_offer collisionFree
    ⟨batch.store, batch.events, processor.metrics⟩ now traced isAttested
  unfold Processor.offer
  cases outcome : Bench.offer setup now item ⟨batch.store, batch.events, processor.metrics⟩ with
  | mk answer bench =>
      rw [outcome] at offered
      obtain ⟨kept, requeues⟩ := offered
      cases answer with
      | error failure =>
          cases failure with
          | crash cause => exact { attested with worker := trivial }
          | error cause => exact { attested with worker := kept }
      | ok result =>
          obtain ⟨receipt, requeue⟩ := result
          cases requeue with
          | none => exact { attested with worker := kept }
          | some requeue =>
              exact { attested with worker := ⟨kept, requeues receipt requeue rfl⟩ }

theorem makeRoom {block : Block} {left : Batch Tables}
    (made : processor.makeRoom block batch = .ok (next, left)) :
    next.Attested submissions setup.constants ∧
      Traced submissions setup.constants left.store := by
  have kept := Bench.traced_replace collisionFree ⟨batch.store, batch.events, processor.metrics⟩
    traced block
  unfold Processor.makeRoom at made
  cases outcome : Bench.replace block ⟨batch.store, batch.events, processor.metrics⟩ with
  | mk answer bench =>
      rw [outcome] at kept
      simp only [outcome] at made
      split at made
      · exact nomatch made
      all_goals
        obtain ⟨rfl, rfl⟩ := Prod.mk.inj (Except.ok.inj made)
      · exact ⟨{ attested with }, kept⟩
      · exact ⟨{ attested with }, kept⟩
      · exact ⟨{ attested with queues := { attested.queues with } }, kept⟩

theorem handle {taken : Queues.Taken}
    (isAttested : taken.Attested submissions setup.constants.epochs) :
    (processor.handle setup now batch taken).Attested submissions setup.constants := by
  unfold Processor.handle
  cases taken with
  | ready item => exact attested.offer collisionFree traced now isAttested
  | forced block =>
      dsimp only
      split
      · exact { attested with worker := trivial }
      · next made =>
          obtain ⟨stillAttested, stillTraced⟩ := attested.makeRoom collisionFree traced made
          exact stillAttested.offer collisionFree stillTraced now
            (QueuedBlock.attested_plain isAttested now)

end Handling

/-- Each step of the worker keeps everything attested. -/
theorem advance (collisionFree : submissions.CollisionFree) {moment : Moment}
    (steps : processor.advance setup moment = some next) :
    next.Attested submissions setup.constants := by
  have inHand := attested.worker
  unfold Processor.advance at steps
  cases worker : processor.worker with
  | absent | finished | crashed cause => simp [worker] at steps
  | idle =>
      simp only [worker] at steps
      split at steps
      · obtain rfl := Option.some.inj steps
        exact { attested with worker := trivial }
      split at steps
      · obtain rfl := Option.some.inj steps
        exact { attested with worker := trivial, queues := { attested.queues with } }
      · exact nomatch steps
  | woken =>
      obtain ⟨checkable, queues⟩ :=
        attested.queues.drain setup.settings.maxVerificationBatch.toNat
      simp only [worker, drain] at steps
      split at steps
      · obtain rfl := Option.some.inj steps
        exact { attested with queues, worker := trivial }
      · obtain rfl := Option.some.inj steps
        exact { attested with queues, worker := checkable }
  | verifyingAhead snapshot drained =>
      rw [worker] at inHand
      simp only [worker, Option.some.injEq] at steps
      subst steps
      exact { attested.putBack snapshot inHand with worker := trivial }
  | opening =>
      simp only [worker] at steps
      split at steps
      · exact nomatch steps
      · obtain rfl := Option.some.inj steps
        exact { attested with worker := attested.store }
  | choosing batch =>
      rw [worker] at inHand
      simp only [worker, Option.some.injEq] at steps
      subst steps
      exact attested.choose inHand moment.elapsed
  | verifying batch drained =>
      rw [worker] at inHand
      obtain ⟨traced, checkable⟩ := inHand
      simp only [worker, Option.some.injEq] at steps
      subst steps
      exact { attested.putBack batch.store checkable with worker := traced }
  | handling batch taken =>
      rw [worker] at inHand
      obtain ⟨traced, isAttested⟩ := inHand
      simp only [worker, Option.some.injEq] at steps
      subst steps
      exact attested.handle collisionFree traced moment.now isAttested
  | requeueing batch item requeue =>
      rw [worker] at inHand
      obtain ⟨traced, isAttested⟩ := inHand
      simp only [worker] at steps
      split at steps
      · obtain rfl := Option.some.inj steps
        exact { attested with worker := trivial }
      · next requeued =>
          obtain ⟨stillAttested, rest⟩ :=
            attested.requeueNext collisionFree isAttested requeued
          obtain rfl := Option.some.inj steps
          exact { stillAttested with worker := ⟨traced, rest _ rfl⟩ }
      · next requeued =>
          obtain ⟨stillAttested, -⟩ := attested.requeueNext collisionFree isAttested requeued
          obtain rfl := Option.some.inj steps
          exact { stillAttested with worker := traced }
  | committing batch =>
      rw [worker] at inHand
      simp only [worker, Option.some.injEq] at steps
      subst steps
      exact { attested with store := inHand, worker := trivial }
  | emitting events =>
      simp only [worker, Option.some.injEq] at steps
      subst steps
      exact { attested with worker := trivial }
  | closing =>
      simp only [worker, Option.some.injEq] at steps
      subst steps
      exact { attested with worker := trivial, queues := { attested.queues with } }

/-! ### Direct calls -/

section Direct

variable (collisionFree : submissions.CollisionFree)

include collisionFree

theorem beginDirect {now : Timestamp} {block : Block} {answer : Except Failure Unit}
    (submitted : block ∈ submissions.blocks)
    (begins : processor.beginDirect setup now block = some (answer, next)) :
    next.Attested submissions setup.constants := by
  have isAttested : QueuedBlock.Attested submissions setup.constants.epochs
      (.plain ⟨processor.copies, block⟩ now) := QueuedBlock.attested_plain submitted now
  have offered := Bench.attested_offer collisionFree ⟨processor.store, [], processor.metrics⟩ now
    attested.store isAttested
  unfold Processor.beginDirect at begins
  split at begins
  · exact nomatch begins
  simp only [copy] at begins
  cases outcome : Bench.offer setup now (.plain ⟨processor.copies, block⟩ now)
      ⟨processor.store, [], processor.metrics⟩ with
  | mk answered bench =>
      rw [outcome] at offered
      obtain ⟨kept, requeues⟩ := offered
      simp only [outcome] at begins
      cases answered with
      | error failure =>
          obtain ⟨-, rfl⟩ := Prod.mk.inj (Option.some.inj begins)
          exact { attested with }
      | ok result =>
          obtain ⟨receipt, requeue⟩ := result
          obtain ⟨-, rfl⟩ := Prod.mk.inj (Option.some.inj begins)
          refine { attested with direct := ?_ }
          rintro call ⟨⟩
          refine ⟨kept, ?_⟩
          rintro requeue rfl
          exact requeues receipt requeue rfl

theorem advanceDirect {call : DirectCall Tables}
    (isAttested : call.Attested submissions setup.constants) :
    (processor.advanceDirect setup call).2.Attested submissions setup.constants := by
  unfold Processor.advanceDirect
  split
  · exact { attested with store := isAttested.store, direct := by simp }
  · next requeue waits =>
      split
      · exact { attested with direct := by simp }
      · next requeued =>
          obtain ⟨stillAttested, rest⟩ :=
            attested.requeueNext collisionFree (isAttested.requeue requeue waits) requeued
          refine { stillAttested with direct := ?_ }
          rintro _ ⟨⟩
          refine ⟨isAttested.store, ?_⟩
          rintro _ ⟨⟩
          exact rest _ rfl
      · next requeued =>
          obtain ⟨stillAttested, -⟩ :=
            attested.requeueNext collisionFree (isAttested.requeue requeue waits) requeued
          refine { stillAttested with direct := ?_ }
          rintro _ ⟨⟩
          exact ⟨isAttested.store, by simp⟩

end Direct

end Attested

/-! ### Runs -/

section Running

variable {submissions : Submissions} {setup : IntakeSetup} {processor : Processor Tables}
  (collisionFree : submissions.CollisionFree)

include collisionFree

/-- Whatever a thread does with what has been handed in, everything stays attested. -/
theorem Attested.act (attested : processor.Attested submissions setup.constants) {action : Action}
    (within : action.Within submissions) :
    (processor.act setup action).Attested submissions setup.constants := by
  obtain ⟨blocks, claims, unhinted⟩ := within
  cases action with
  | add block arrival =>
      have copied : (processor.copy block).2.Attested submissions setup.constants :=
        { attested with }
      have isAttested : QueuedBlock.Attested submissions setup.constants.epochs
          (.plain (processor.copy block).1 arrival) :=
        QueuedBlock.attested_plain (blocks block List.mem_cons_self) arrival
      simp only [Processor.act]
      cases queued : processor.add setup block arrival with
      | error cause => exact attested
      | ok next => exact copied.enqueue collisionFree isAttested queued
  | addKnown known now =>
      have unknown : known.verified = .unknown := unhinted
      have isAttested : submissions.Attests setup.constants.epochs known.block known.account
          known.verified :=
        ⟨blocks known.block List.mem_cons_self, unknown ▸ .unknown,
          fun _ => claims _ List.mem_cons_self⟩
      simp only [Processor.act]
      cases queued : processor.addKnown setup known now with
      | error cause => exact attested
      | ok next =>
          unfold addKnown at queued
          split at queued
          · exact attested.addParked collisionFree { known with modified := now } isAttested queued
          · exact attested.addParked collisionFree known isAttested queued
  | force block =>
      exact { attested with queues := attested.queues.force (blocks block List.mem_cons_self) }
  | start =>
      simp only [Processor.act, start]
      split
      · exact { attested with worker := trivial }
      · exact attested
  | stop => exact { attested with queues := { attested.queues with } }
  | join =>
      simp only [Processor.act, join]
      split
      · exact { attested with worker := trivial }
      · exact { attested with worker := trivial }
      · exact attested
  | advance moment =>
      simp only [Processor.act]
      cases steps : processor.advance setup moment with
      | none => exact attested
      | some next => exact attested.advance collisionFree steps
  | beginDirect block now =>
      simp only [Processor.act]
      cases begins : processor.beginDirect setup now block with
      | none => exact attested
      | some result =>
          exact attested.beginDirect collisionFree (blocks block List.mem_cons_self) begins
  | advanceDirect =>
      simp only [Processor.act]
      cases isCall : processor.direct with
      | none => exact attested
      | some call => exact attested.advanceDirect collisionFree (attested.direct call isCall)

theorem Attested.run (attested : processor.Attested submissions setup.constants)
    {actions : List Action} (within : ∀ action ∈ actions, action.Within submissions) :
    (processor.run setup actions).Attested submissions setup.constants := by
  induction actions generalizing processor with
  | nil => exact attested
  | cons action rest inductionHypothesis =>
      obtain ⟨isWithin, restWithin⟩ := List.forall_mem_cons.mp within
      exact inductionHypothesis (attested.act collisionFree isWithin) restWithin

omit collisionFree in
/-- Before anything has been handed in, everything is attested if the ledger is traced. -/
theorem attested_new {constants : LedgerConstants} {store : Tables}
    (traced : Traced submissions constants store) (settings : IntakeSettings) :
    (Processor.new settings store).Attested submissions constants where
  store := traced
  queues := Queues.attested_empty _
  interner := Interner.attested_empty submissions
  worker := trivial
  direct := by simp [Processor.new]

end Running

/-! ### The development network -/

section Development

open LedgerConstants

/-- Somebody who has nothing to do with the genesis account. -/
def devForger : SecretKey := ⟨1⟩

/-- All that the genesis account has is sent to the forger, with the forger's signature. -/
def devForgery : Block :=
  devForger.block (.state
    { account := dev.genesisAccount, previous := dev.genesis.hash
      representative := dev.genesisAccount, balance := .zero
      link := devForger.account.asLink }) 0

/-- The forgery is handed in together with the forger's account, and a batch is committed. -/
def devForging : List Action :=
  .start :: .addKnown ⟨devForgery, devForger.account, .zero, .unknown⟩ .zero ::
    List.replicate 8 (.advance ⟨.zero, 0⟩)

private theorem devForging_evaluated :
    (((Processor.new .standard (started .dev .zero .empty none)).run
        ⟨.standard, .dev, ⟨0⟩⟩ devForging).store.blocks.get? devForgery.hash).any (fun stored =>
      !stored.sideband.details.isEpoch && !stored.block.isSignedBy stored.sideband.account) ∧
    (Submissions.ofRun .dev devForging).CollisionFree := by
  decide +kernel

/-- On the development network, an intake whose callers bring no knowledge about signatures stores
only blocks that are signed by their account or, for an epoch block, by the signer of the link; or
else a caller has claimed an account for the block that has signed it. -/
theorem dev_authentic_or_vouched (settings : IntakeSettings) (work : WorkThreshold)
    (now : Timestamp) (version : Option UInt32) {actions : List Action} {hash : BlockHash}
    {stored : StoredBlock} (unhinted : ∀ action ∈ actions, action.Unhinted)
    (collisionFree : (Submissions.ofRun .dev actions).CollisionFree)
    (found : ((Processor.new settings (started .dev now .empty version)).run
      ⟨settings, .dev, work⟩ actions).store.blocks.get? hash = some stored) :
    Authentic .dev stored ∨ stored.sideband.details.isEpoch = false ∧
      ∃ known arrival, .addKnown known arrival ∈ actions ∧ known.block.hash = stored.hash ∧
        known.account ≠ .zero ∧ stored.block.isSignedBy known.account := by
  have begins : Traced (Submissions.ofRun .dev actions) .dev (started .dev now .empty version) :=
    traced_started dev_sound dev_genesis_signed List.mem_cons_self now version
  have attested : (Processor.run ⟨settings, .dev, work⟩
      (Processor.new settings (started .dev now .empty version)) actions).Attested
        (Submissions.ofRun .dev actions) (IntakeSetup.mk settings .dev work).constants :=
    Attested.run collisionFree (attested_new begins settings) fun action done =>
      Submissions.within_ofRun unhinted done
  refine (attested.store.authentic_or_vouched found).imp id fun ⟨notEpoch, vouched⟩ => ?_
  obtain ⟨claimed, isClaim, named, signed⟩ := vouched
  obtain ⟨action, done, isClaimed⟩ := List.mem_flatMap.mp isClaim
  refine ⟨notEpoch, ?_⟩
  cases action with
  | addKnown known arrival =>
      obtain ⟨sameHash, rfl⟩ := Prod.mk.inj (List.mem_singleton.mp isClaimed)
      exact ⟨known, arrival, done, sameHash.symm, named, signed⟩
  | _ => simp [Action.claims] at isClaimed

theorem devForging_unhinted : ∀ action ∈ devForging, action.Unhinted := by
  simp [devForging, Action.Unhinted]

theorem devForgery_stored : ∃ stored,
    ((Processor.new .standard (started .dev .zero .empty none)).run
        ⟨.standard, .dev, ⟨0⟩⟩ devForging).store.blocks.get? devForgery.hash = some stored ∧
      ¬ Authentic .dev stored := by
  obtain ⟨stored, found, unsigned⟩ := (Option.any_eq_true _ _).mp devForging_evaluated.1
  refine ⟨stored, found, fun authentic => ?_⟩
  simp only [Bool.and_eq_true, Bool.not_eq_true'] at unsigned
  unfold Authentic at authentic
  simp only [unsigned.1, unsigned.2, Bool.false_eq_true, if_false] at authentic

theorem devForging_authentic_or_vouched : ∃ stored,
    ((Processor.new .standard (started .dev .zero .empty none)).run
        ⟨.standard, .dev, ⟨0⟩⟩ devForging).store.blocks.get? devForgery.hash = some stored ∧
      (Authentic .dev stored ∨ stored.sideband.details.isEpoch = false ∧
        ∃ known arrival, .addKnown known arrival ∈ devForging ∧
          known.block.hash = stored.hash ∧ known.account ≠ .zero ∧
          stored.block.isSignedBy known.account) := by
  obtain ⟨stored, found, -⟩ := devForgery_stored
  exact ⟨stored, found, dev_authentic_or_vouched .standard ⟨0⟩ .zero none devForging_unhinted
    devForging_evaluated.2 found⟩

/-- A claimed account takes the place of the owner: not everything that is stored is authentic. -/
theorem devForgery_unauthentic : ¬ ∀ (settings : IntakeSettings) (work : WorkThreshold)
    (now : Timestamp) (version : Option UInt32) (actions : List Action),
    (∀ action ∈ actions, action.Unhinted) → ∀ hash stored,
      ((Processor.new settings (started .dev now .empty version)).run
        ⟨settings, .dev, work⟩ actions).store.blocks.get? hash = some stored →
      Authentic .dev stored := by
  intro allAuthentic
  obtain ⟨stored, found, unauthentic⟩ := devForgery_stored
  exact unauthentic
    (allAuthentic .standard ⟨0⟩ .zero none devForging devForging_unhinted _ _ found)

end Development

end Processor

end AccountChains
