import AccountChains.Intake.Handling
import AccountChains.Intake.Queues
import AccountChains.Proofs.Intake.Checking
import AccountChains.Proofs.Ledger.Timeless

/-!
Contract: where a block may be between its arrival and the ledger.

A number of blocks is to be delivered, and a ledger is known into which all of them
belong. Each of them that is not in the ledger yet is at exactly one place: it is
still to arrive, or it waits in a queue, or the worker has it in hand, or it is
parked. A block is parked only under a block that it builds on and that is missing.
Every step of the worker moves blocks from one place to another, and none gets lost.

Owns: the places (`Transit`), the invariant (`Tracks`), and the moves that keep it.
Does not own: which step of the intake makes which move.
-/

namespace AccountChains

open BlockTable Ledger

/-- Blocks are to be delivered to a ledger that is to become another one. -/
structure Delivery (setup : IntakeSetup) (first final : Tables) (plan : List Block) : Prop where
  sound : setup.constants.Sound
  unlinked : setup.constants.epochs.isEpochLink .zero = false
  deletes : setup.settings.uncheckedDeletion
  coherent : final.Coherent setup.constants
  belongs : ∀ block ∈ plan, ∃ sideband,
    final.blocks.get? block.hash = some ⟨block, sideband⟩ ∧
      Suits setup.constants .unknown final.blocks ⟨block, sideband⟩
  covers : ∀ hash, final.blocks.contains hash →
    first.blocks.contains hash ∨ ∃ block ∈ plan, block.hash = hash
  accepts : ∀ block ∈ plan, setup.work.accepts block

theorem Delivery.block_eq {setup : IntakeSetup} {first final : Tables} {plan : List Block}
    {block other : Block} (delivery : Delivery setup first final plan) (planned : block ∈ plan)
    (otherPlanned : other ∈ plan) (same : block.hash = other.hash) : block = other := by
  obtain ⟨sideband, found, -⟩ := delivery.belongs block planned
  obtain ⟨otherSideband, otherFound, -⟩ := delivery.belongs other otherPlanned
  rw [same, otherFound] at found
  exact (congrArg StoredBlock.block (Option.some.inj found)).symm

/-- The blocks under way, with the ledger that the worker sees. -/
structure Transit extends Lanes where
  view : Tables
  /-- Being verified. -/
  drained : List QueuedBlock
  /-- Being handled. -/
  taken : List QueuedBlock
  /-- About to be queued again. -/
  requeued : List ParkedBlock

namespace Transit

/-- The blocks that are not queued a second time. -/
def queued (transit : Transit) : List QueuedBlock :=
  transit.items ++ transit.drained

/-- How many copies of a block are parked. -/
def parkedCopies (parked : Table ParkedKey ParkedBlock) (block : Block) : Nat :=
  parked.total fun _ waiting => if waiting.block = block then 1 else 0

/-- At how many places a block is. -/
def copies (transit : Transit) (block : Block) : Nat :=
  transit.queued.countP (fun item => item.block = block)
    + transit.taken.countP (fun item => item.block = block)
    + transit.requeued.countP (fun waiting => waiting.block = block)
    + parkedCopies transit.view.parked block

/-- A block is parked under a block that it builds on and that is missing. -/
structure Waiting (constants : LedgerConstants) (view final : Tables) (key : ParkedKey)
    (waiting : ParkedBlock) : Prop where
  keyed : key.hash = waiting.block.hash
  unvouched : waiting.account = .zero
  missing : view.blocks.contains key.dependency = false
  depends : DependsOn constants.genesis.hash final.blocks key.hash key.dependency
  expected : final.blocks.contains key.dependency

/-- Every block that is to be delivered is in the ledger, still to arrive, or at one place. -/
structure Tracks (constants : LedgerConstants) (first final : Tables) (plan todo : List Block)
    (transit : Transit) : Prop where
  coherent : transit.view.Coherent constants
  kept : ∀ hash, first.blocks.contains hash → transit.view.blocks.contains hash
  within : Within transit.view.blocks final.blocks
  version : transit.view.version = first.version
  accounted : ∀ block, todo.count block + transit.copies block
    = if block ∈ plan ∧ transit.view.blocks.contains block.hash = false then 1 else 0
  unvouched : ∀ item ∈ transit.queued ++ transit.taken, item.account = .zero
  naming : ∀ item ∈ transit.unverified ++ transit.drained, item.NamesAccount
  requeued : ∀ waiting ∈ transit.requeued, waiting.account = .zero
  waits : ∀ key waiting, transit.view.parked.get? key = some waiting →
    Waiting constants transit.view final key waiting
  listed : ∀ hash, transit.hashes.contains hash → ∃ item ∈ transit.queued, item.hash = hash

/-- A block is queued: to be verified, or ready. -/
def enqueue (item : QueuedBlock) (transit : Transit) : Transit :=
  { transit with toLanes := transit.toLanes.enqueue item.hash item }

/-- A block gets into the ledger, and what is parked under it is taken up. -/
def land (item : QueuedBlock) (grown : Tables) (transit : Transit) : Transit :=
  { transit with
    view := { grown with
      parked := transit.view.parked.restrict fun key _ => key.dependency ≠ item.hash }
    taken := []
    requeued :=
      (transit.view.parked.filter fun key => key.dependency == item.hash).map Prod.snd }

/-- A block is parked under another one. -/
def park (item : QueuedBlock) (dependency : BlockHash) (verified : Verification)
    (transit : Transit) : Transit :=
  { transit with
    view := { transit.view with
      parked := transit.view.parked.insert ⟨dependency, item.hash⟩ (item.toParked verified) }
    taken := [] }

/-! ## Parked blocks -/

section Parked

variable {parked : Table ParkedKey ParkedBlock} {key : ParkedKey} {waiting : ParkedBlock}
  {block : Block}

theorem parkedCopies_pos (found : parked.get? key = some waiting) :
    1 ≤ parkedCopies parked waiting.block := by
  have share := Table.share_le_total
    (fun _ (other : ParkedBlock) => if other.block = waiting.block then 1 else 0) parked key
  rw [Table.share_of_some found, if_pos rfl] at share
  exact share

theorem parkedCopies_insert (absent : parked.get? key = none) :
    parkedCopies (parked.insert key waiting) block
      = parkedCopies parked block + if waiting.block = block then 1 else 0 := by
  have added := Table.total_insert
    (fun _ (other : ParkedBlock) => if other.block = block then 1 else 0) parked key waiting
  rwa [Table.share_of_none absent, Nat.add_zero] at added

theorem exists_of_parkedCopies_pos (positive : 0 < parkedCopies parked block) :
    ∃ key waiting, parked.get? key = some waiting ∧ waiting.block = block := by
  by_contra none
  push Not at none
  have empty : parkedCopies parked block = parked.total fun _ _ => 0 :=
    Table.total_congr fun key waiting found => if_neg (none key waiting found)
  simp [empty, Table.total] at positive

/-- The parked blocks are those under one block and the others. -/
theorem parkedCopies_split (parked : Table ParkedKey ParkedBlock) (dependency : BlockHash)
    (block : Block) :
    ((parked.filter fun key => key.dependency == dependency).map Prod.snd).countP
        (fun waiting => waiting.block = block)
      + parkedCopies (parked.restrict fun key _ => key.dependency ≠ dependency) block
      = parkedCopies parked block := by
  simp only [parkedCopies, Table.total, Table.filter, Table.restrict]
  induction parked.entries with
  | nil => rfl
  | cons head rest inductionHypothesis =>
      by_cases here : head.1.dependency = dependency <;> by_cases same : head.2.block = block <;>
        simp [here, same] at inductionHypothesis ⊢ <;> omega

/-- What is parked under a block that gets into the ledger stays under way. -/
theorem copies_land (item : QueuedBlock) (grown : Tables) (transit : Transit) (block : Block) :
    (transit.land item grown).copies block
      = transit.queued.countP (fun item => item.block = block)
        + parkedCopies transit.view.parked block := by
  have split := parkedCopies_split transit.view.parked item.hash block
  unfold copies
  rw [← split, ← Nat.add_assoc]
  rfl

theorem copies_park {item : QueuedBlock} {dependency : BlockHash} {transit : Transit}
    (absent : transit.view.parked.get? ⟨dependency, item.hash⟩ = none)
    (verified : Verification) (block : Block) :
    (transit.park item dependency verified).copies block
      = transit.queued.countP (fun item => item.block = block)
        + transit.requeued.countP (fun waiting => waiting.block = block)
        + (parkedCopies transit.view.parked block + if item.block = block then 1 else 0) := by
  have inserted : parkedCopies (transit.park item dependency verified).view.parked block
      = parkedCopies transit.view.parked block + if item.block = block then 1 else 0 :=
    parkedCopies_insert absent
  unfold copies
  rw [inserted]
  rfl

end Parked

/-! ## Queued blocks -/

section Queued

variable {item other : QueuedBlock} {transit : Transit}

theorem queued_enqueue (item : QueuedBlock) (transit : Transit) :
    (transit.enqueue item).queued.Perm (item :: transit.queued) :=
  (Lanes.items_enqueue item.hash item transit.toLanes).append_right transit.drained

theorem mem_queued_enqueue :
    other ∈ (transit.enqueue item).queued ↔ other = item ∨ other ∈ transit.queued := by
  rw [(queued_enqueue item transit).mem_iff, List.mem_cons]

theorem copies_enqueue (block : Block) : (transit.enqueue item).copies block
    = transit.copies block + if item.block = block then 1 else 0 := by
  have inQueue := (queued_enqueue item transit).countP_eq fun item => item.block = block
  simp only [List.countP_cons, decide_eq_true_eq] at inQueue
  unfold copies
  rw [inQueue]
  simp only [enqueue]
  omega

end Queued

namespace Tracks

variable {setup : IntakeSetup} {first final : Tables} {plan todo : List Block}
  {transit : Transit} {block : Block} {item : QueuedBlock} {waiting : ParkedBlock}
  {key : ParkedKey}

/-! ## Blocks that are under way -/

section Outstanding

variable (tracks : Tracks setup.constants first final plan todo transit)

include tracks

/-- A block that is anywhere is to be delivered and is not in the ledger yet. -/
theorem outstanding (somewhere : 1 ≤ todo.count block + transit.copies block) :
    block ∈ plan ∧ transit.view.blocks.contains block.hash = false := by
  by_contra settled
  have none := tracks.accounted block
  rw [if_neg settled] at none
  omega

theorem copies_le_one (block : Block) : todo.count block + transit.copies block ≤ 1 := by
  rw [tracks.accounted block]
  split <;> omega

theorem outstanding_item (member : item ∈ transit.queued ++ transit.taken) :
    item.block ∈ plan ∧ transit.view.blocks.contains item.block.hash = false := by
  have positive : 0 < (transit.queued ++ transit.taken).countP
      fun other => other.block = item.block :=
    List.countP_pos_iff.mpr ⟨item, member, by simp⟩
  rw [List.countP_append] at positive
  apply tracks.outstanding
  unfold copies
  omega

theorem outstanding_parked (found : transit.view.parked.get? key = some waiting) :
    waiting.block ∈ plan ∧ transit.view.blocks.contains waiting.block.hash = false := by
  have positive := parkedCopies_pos found
  apply tracks.outstanding
  unfold copies
  omega

theorem due (delivery : Delivery setup first final plan)
    (outstanding : block ∈ plan ∧ transit.view.blocks.contains block.hash = false) :
    ∃ sideband, Due setup.constants transit.view final ⟨block, sideband⟩ := by
  obtain ⟨sideband, found, suits⟩ := delivery.belongs block outstanding.1
  exact ⟨sideband, tracks.coherent, delivery.coherent, tracks.within, found, suits,
    (Table.contains_eq_false_iff _ _).mp outstanding.2⟩

/-- A block that is not in a queue is not turned away. -/
theorem unlisted (delivery : Delivery setup first final plan)
    (elsewhere : 1 ≤ todo.count block
      + transit.requeued.countP fun waiting => waiting.block = block) :
    transit.hashes.contains block.hash = false := by
  by_contra listed
  obtain ⟨item, member, sameHash⟩ := tracks.listed block.hash (by simpa using listed)
  have somewhere : 1 ≤ todo.count block + transit.copies block := by
    unfold copies
    omega
  have planned := (tracks.outstanding somewhere).1
  have itemPlanned := (tracks.outstanding_item (List.mem_append_left _ member)).1
  obtain rfl := delivery.block_eq itemPlanned planned sameHash
  have positive : 0 < transit.queued.countP fun other => other.block = item.block :=
    List.countP_pos_iff.mpr ⟨item, member, by simp⟩
  have atMostOne := tracks.copies_le_one item.block
  unfold copies at atMostOne
  omega

end Outstanding

/-! ## Moves between the queues -/

section Moves

/-- Some blocks are taken out to be verified. -/
theorem drain (tracks : Tracks setup.constants first final plan todo transit)
    (nothing : transit.drained = []) (count : Nat) :
    Tracks setup.constants first final plan todo { transit with
      unverified := transit.unverified.drop count
      drained := transit.unverified.take count } where
  __ := tracks
  accounted block := by
    have whole := congrArg (List.countP fun item => item.block = block)
      (List.take_append_drop count transit.unverified)
    rw [List.countP_append] at whole
    have before := tracks.accounted block
    simp only [copies, queued, Lanes.items, nothing, List.countP_append,
      List.countP_nil] at before ⊢
    omega
  unvouched item member := by
    apply tracks.unvouched item
    simp only [queued, Lanes.items, List.mem_append] at member ⊢
    rcases member with ((isReady | dropped) | drained) | taken
    · exact .inl (.inl (.inl isReady))
    · exact .inl (.inl (.inr (List.mem_of_mem_drop dropped)))
    · exact .inl (.inl (.inr (List.mem_of_mem_take drained)))
    · exact .inr taken
  naming item member := by
    apply tracks.naming item
    rcases List.mem_append.mp member with dropped | drained
    · exact List.mem_append_left _ (List.mem_of_mem_drop dropped)
    · exact List.mem_append_left _ (List.mem_of_mem_take drained)
  listed hash contained := by
    obtain ⟨item, member, isHash⟩ := tracks.listed hash contained
    refine ⟨item, ?_, isHash⟩
    simp only [queued, Lanes.items, nothing, List.append_nil, List.mem_append] at member ⊢
    rcases member with isReady | unverified
    · exact .inl (.inl isReady)
    · rw [← List.take_append_drop count transit.unverified] at unverified
      rcases List.mem_append.mp unverified with drained | dropped
      · exact .inr drained
      · exact .inl (.inr dropped)

/-- The verified blocks are ready. -/
theorem putBack (tracks : Tracks setup.constants first final plan todo transit)
    (verdict : QueuedBlock → Verification) :
    Tracks setup.constants first final plan todo { transit with
      ready := transit.ready ++ transit.drained.map fun item =>
        { item with verified := verdict item }
      drained := [] } where
  __ := tracks
  accounted block := by
    have verified : (transit.drained.map fun item => { item with verified := verdict item }).countP
        (fun item => item.block = block) = transit.drained.countP fun item => item.block = block :=
      List.countP_map
    have before := tracks.accounted block
    simp only [copies, queued, Lanes.items, List.countP_append, List.countP_nil,
      verified] at before ⊢
    omega
  unvouched item member := by
    simp only [queued, Lanes.items, List.append_nil, List.mem_append, List.mem_map] at member
    have before := tracks.unvouched
    simp only [queued, Lanes.items, List.mem_append] at before
    rcases member with ((isReady | ⟨original, drained, rfl⟩) | unverified) | taken
    · exact before item (.inl (.inl (.inl isReady)))
    · exact before original (.inl (.inr drained))
    · exact before item (.inl (.inl (.inr unverified)))
    · exact before item (.inr taken)
  naming item member := by
    rw [List.append_nil] at member
    exact tracks.naming item (List.mem_append_left _ member)
  listed hash contained := by
    obtain ⟨item, member, isHash⟩ := tracks.listed hash contained
    simp only [queued, Lanes.items, List.append_nil, List.mem_append, List.mem_map] at member ⊢
    rcases member with (isReady | unverified) | drained
    · exact ⟨item, .inl (.inl isReady), isHash⟩
    · exact ⟨item, .inr unverified, isHash⟩
    · exact ⟨_, .inl (.inr ⟨item, drained, rfl⟩), isHash⟩

/-- The next block is taken into the ledger's hands. -/
theorem take (tracks : Tracks setup.constants first final plan todo transit)
    {rest : List QueuedBlock} (isReady : transit.ready = item :: rest)
    (nothing : transit.taken = []) :
    Tracks setup.constants first final plan todo { transit with
      ready := rest
      taken := [item]
      hashes := transit.hashes.erase item.hash } where
  __ := tracks
  accounted block := by
    have before := tracks.accounted block
    simp only [copies, queued, Lanes.items, isReady, nothing, List.countP_append, List.countP_cons,
      List.countP_nil] at before ⊢
    omega
  unvouched other member := by
    apply tracks.unvouched other
    simp only [queued, Lanes.items, isReady, List.cons_append, List.mem_append, List.mem_cons,
      List.not_mem_nil, or_false] at member ⊢
    tauto
  listed hash contained := by
    obtain ⟨found, isFound⟩ := (Table.contains_eq_true_iff _ _).mp contained
    rw [Table.get?_erase] at isFound
    split at isFound
    · simp at isFound
    · next different =>
        obtain ⟨other, member, isHash⟩ :=
          tracks.listed hash ((Table.contains_eq_true_iff _ _).mpr ⟨found, isFound⟩)
        refine ⟨other, ?_, isHash⟩
        simp only [queued, Lanes.items, isReady, List.cons_append, List.mem_cons] at member ⊢
        refine member.resolve_left ?_
        rintro rfl
        exact different isHash.symm

/-- A block that is to be queued again counts as one that is still to arrive. -/
theorem unpark (tracks : Tracks setup.constants first final plan todo transit)
    {rest : List ParkedBlock} (isNext : transit.requeued = waiting :: rest) :
    Tracks setup.constants first final plan (waiting.block :: todo)
      { transit with requeued := rest } where
  __ := tracks
  accounted block := by
    have before := tracks.accounted block
    simp only [copies, isNext, List.countP_cons, List.count_cons, beq_iff_eq, decide_eq_true_eq,
      queued] at before ⊢
    omega
  requeued other member := tracks.requeued other (isNext ▸ List.mem_cons_of_mem _ member)

/-- A block that arrives is queued. -/
theorem enqueue
    (tracks : Tracks setup.constants first final plan (item.block :: todo) transit)
    (unvouched : item.account = .zero) :
    Tracks setup.constants first final plan todo (transit.enqueue item) where
  coherent := tracks.coherent
  kept := tracks.kept
  within := tracks.within
  version := tracks.version
  accounted block := by
    have before := tracks.accounted block
    simp only [List.count_cons, beq_iff_eq] at before
    rw [copies_enqueue]
    exact Eq.trans (by omega) before
  unvouched other member := by
    rw [List.mem_append, mem_queued_enqueue] at member
    rcases member with (rfl | queued) | taken
    · exact unvouched
    · exact tracks.unvouched other (List.mem_append_left _ queued)
    · exact tracks.unvouched other (List.mem_append_right _ taken)
  naming other member := by
    rw [List.mem_append] at member
    rcases member with waits | drained
    · rcases Lanes.mem_unverified_enqueue.mp waits with unverified | ⟨checks, rfl⟩
      · exact tracks.naming other (List.mem_append_left _ unverified)
      · simp only [QueuedBlock.needsVerification, unvouched, Bool.and_eq_true, Bool.or_eq_true,
          beq_iff_eq] at checks
        exact checks.2.resolve_right (by decide)
    · exact tracks.naming other (List.mem_append_right _ drained)
  requeued := tracks.requeued
  waits := tracks.waits
  listed hash contained := by
    rcases Lanes.contains_enqueue.mp contained with rfl | before
    · exact ⟨item, mem_queued_enqueue.mpr (.inl rfl), rfl⟩
    · obtain ⟨other, member, isHash⟩ := tracks.listed hash before
      exact ⟨other, mem_queued_enqueue.mpr (.inr member), isHash⟩

end Moves

/-! ## Moves to the ledger and back -/

section Handling

variable (tracks : Tracks setup.constants first final plan todo transit)
  (delivery : Delivery setup first final plan) (inHand : transit.taken = [item])

include tracks inHand

/-- A block that is in hand is nowhere else. -/
theorem only_taken : todo.count item.block = 0 ∧
    transit.queued.countP (fun other => other.block = item.block) = 0 ∧
    transit.requeued.countP (fun waiting => waiting.block = item.block) = 0 ∧
    parkedCopies transit.view.parked item.block = 0 := by
  have atMostOne := tracks.copies_le_one item.block
  simp only [copies, inHand, List.countP_singleton, decide_true, if_true] at atMostOne
  omega

include delivery

/-- A block gets into the ledger. -/
theorem land {sideband : Sideband} {now : Timestamp}
    (found : final.blocks.get? item.hash = some ⟨item.block, sideband⟩)
    (nothing : transit.requeued = [])
    (coherent : (transit.view.append
      ⟨item.block, { sideband with timestamp := now }⟩).Coherent setup.constants) :
    Tracks setup.constants first final plan todo (transit.land item
      (transit.view.append ⟨item.block, { sideband with timestamp := now }⟩)) := by
  have member : item ∈ transit.queued ++ transit.taken := by simp [inHand]
  have planned := (tracks.outstanding_item member).1
  refine {
    coherent := coherent.reparked _
    kept := fun hash contained => Tables.contains_append.mpr (.inr (tracks.kept hash contained))
    within := ?_
    version := tracks.version
    accounted := ?_
    unvouched := ?_
    naming := tracks.naming
    requeued := ?_
    waits := ?_
    listed := tracks.listed }
  · intro hash stored inGrown
    rcases Tables.found_append.mp inGrown with ⟨rfl, rfl⟩ | ⟨-, old⟩
    · exact ⟨_, found, .retimed item.block sideband now⟩
    · exact tracks.within old
  · intro block
    have before := tracks.accounted block
    have grown : (transit.land item (transit.view.append
          ⟨item.block, { sideband with timestamp := now }⟩)).view.blocks.contains block.hash ↔
        block.hash = item.hash ∨ transit.view.blocks.contains block.hash :=
      Tables.contains_append
    by_cases same : item.block = block
    · subst same
      obtain ⟨arriving, inQueue, -, parked⟩ := tracks.only_taken inHand
      rw [if_neg fun absent => by simp [grown.mpr (.inl rfl)] at absent, copies_land]
      omega
    · -- For any other block that is to be delivered nothing has changed.
      have unchanged : (block ∈ plan ∧ (transit.land item (transit.view.append
            ⟨item.block, { sideband with timestamp := now }⟩)).view.blocks.contains block.hash
              = false) ↔ block ∈ plan ∧ transit.view.blocks.contains block.hash = false := by
        refine and_congr_right fun isPlanned => ?_
        have different : block.hash ≠ item.hash := fun sameHash =>
          same (delivery.block_eq isPlanned planned sameHash).symm
        rw [← Bool.not_eq_true, ← Bool.not_eq_true, grown, or_iff_right different]
      simp only [copies, inHand, nothing, List.countP_singleton, List.countP_nil, same,
        decide_false, Bool.false_eq_true, if_false] at before
      rw [if_congr unchanged rfl rfl, ← before, copies_land]
      omega
  · intro other member
    rw [show (transit.land item _).taken = [] from rfl, List.append_nil] at member
    exact tracks.unvouched other (List.mem_append_left _ member)
  · intro waiting member
    obtain ⟨⟨key, other⟩, listed, rfl⟩ := List.mem_map.mp member
    obtain ⟨inTable, -⟩ := List.mem_filter.mp listed
    exact (tracks.waits key other ((Table.mem_entries_iff _ _ _).mp inTable)).unvouched
  · intro key waiting stillParked
    rw [Transit.land, Table.get?_restrict, Option.filter_eq_some_iff] at stillParked
    obtain ⟨wasParked, elsewhere⟩ := stillParked
    have waits := tracks.waits key waiting wasParked
    refine { waits with missing := ?_ }
    rw [← Bool.not_eq_true]
    intro contained
    rcases Tables.contains_append.mp contained with isItem | old
    · exact (of_decide_eq_true elsewhere) isItem
    · simp [waits.missing] at old

/-- A block is parked under a block that it builds on and that is missing. -/
theorem park {dependency : BlockHash} (verified : Verification)
    (missing : transit.view.blocks.contains dependency = false)
    (depends : DependsOn setup.constants.genesis.hash final.blocks item.hash dependency)
    (expected : final.blocks.contains dependency) :
    Tracks setup.constants first final plan todo (transit.park item dependency verified) := by
  have member : item ∈ transit.queued ++ transit.taken := by simp [inHand]
  have planned := (tracks.outstanding_item member).1
  have absent : transit.view.parked.get? ⟨dependency, item.hash⟩ = none := by
    refine Option.eq_none_iff_forall_ne_some.mpr fun waiting found => ?_
    have sameHash := (tracks.waits _ _ found).keyed
    have same := delivery.block_eq planned (tracks.outstanding_parked found).1 sameHash
    have positive := parkedCopies_pos found
    rw [← same, (tracks.only_taken inHand).2.2.2] at positive
    omega
  refine {
    coherent := tracks.coherent.reparked _
    kept := tracks.kept
    within := tracks.within
    version := tracks.version
    accounted := ?_
    unvouched := ?_
    naming := tracks.naming
    requeued := tracks.requeued
    waits := ?_
    listed := tracks.listed }
  · intro block
    have before := tracks.accounted block
    simp only [copies, inHand, List.countP_singleton, decide_eq_true_eq] at before
    rw [copies_park absent]
    exact Eq.trans (by omega) before
  · intro other member
    rw [show (transit.park item dependency verified).taken = [] from rfl, List.append_nil] at member
    exact tracks.unvouched other (List.mem_append_left _ member)
  · intro key waiting found
    rw [Transit.park, Table.get?_insert] at found
    split at found
    · next isNew =>
        obtain rfl := Option.some.inj found
        subst isNew
        exact ⟨rfl, tracks.unvouched item member, missing, depends, expected⟩
    · obtain ⟨keyed, unvouched, stillMissing, builds, stored⟩ := tracks.waits key waiting found
      exact ⟨keyed, unvouched, stillMissing, builds, stored⟩

end Handling

/-! ## When nothing moves any more -/

section AtEnd

variable (tracks : Tracks setup.constants first final plan [] transit)
  (delivery : Delivery setup first final plan) (queues : transit.queued = [])
  (hands : transit.taken = []) (nothing : transit.requeued = [])

include tracks delivery queues hands nothing

/-- Of the blocks that are not in the ledger, one would build on none of the others. -/
theorem all_landed (planned : block ∈ plan) : transit.view.blocks.contains block.hash := by
  obtain ⟨rank, ranked⟩ := delivery.coherent.ranked
  induction height : rank block.hash using Nat.strong_induction_on generalizing block with
  | _ _ inductionHypothesis =>
      by_contra absent
      have once := tracks.accounted block
      rw [if_pos ⟨planned, by simpa using absent⟩] at once
      simp only [copies, queues, hands, nothing, List.countP_nil, List.count_nil] at once
      obtain ⟨key, waiting, found, rfl⟩ :=
        exists_of_parkedCopies_pos (by omega : 0 < parkedCopies transit.view.parked block)
      have waits := tracks.waits key waiting found
      have lower := ranked _ _ waits.depends
      rw [waits.keyed] at lower
      have missing := waits.missing
      rcases delivery.covers _ waits.expected with inFirst | ⟨before, isPlanned, isDependency⟩
      · simp [tracks.kept _ inFirst] at missing
      · have landed := inductionHypothesis _ (by omega) isPlanned (congrArg rank isDependency)
        rw [isDependency, missing] at landed
        simp at landed

theorem contains_of_final {hash : BlockHash} (inFinal : final.blocks.contains hash) :
    transit.view.blocks.contains hash := by
  rcases delivery.covers hash inFinal with inFirst | ⟨block, planned, rfl⟩
  · exact tracks.kept hash inFirst
  · exact tracks.all_landed delivery queues hands nothing planned

theorem none_parked : transit.view.parked = .empty := by
  ext1 key
  refine Option.eq_none_iff_forall_ne_some.mpr fun waiting found => ?_
  obtain ⟨planned, absent⟩ := tracks.outstanding_parked found
  simp [tracks.all_landed delivery queues hands nothing planned] at absent

/-- The ledger is the expected one up to the times at which blocks were taken in. -/
theorem timeless_eq (noneParked : final.parked = .empty) (version : final.version = first.version) :
    transit.view.timeless = final.timeless := by
  have back : Within final.blocks transit.view.blocks := by
    intro hash stored found
    have inView := tracks.contains_of_final delivery queues hands nothing
      ((Table.contains_eq_true_iff _ _).mpr ⟨stored, found⟩)
    obtain ⟨other, otherFound⟩ := (Table.contains_eq_true_iff _ _).mp inView
    exact ⟨other, otherFound, Within.agrees tracks.within (Within.refl _) otherFound found⟩
  refine tracks.coherent.timeless_eq delivery.coherent delivery.sound tracks.within back ?_ ?_
  · rw [tracks.none_parked delivery queues hands nothing, noneParked]
  · rw [tracks.version, version]

end AtEnd

end Tracks

end Transit

end AccountChains
