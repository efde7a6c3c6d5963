import AccountChains.Intake.Handling
import AccountChains.Proofs.Ledger.Gaps
import AccountChains.Proofs.Store.Keys

/-!
Contract: handling a block that is due.

The block gets into the ledger, and what was parked under it is taken up; or it is
parked under a block that it builds on and that is missing. There is no failure and
no third outcome.

Owns: what taking up parked blocks does, and the outcome of `Bench.offer`. Does not
own: the queues.
-/

namespace AccountChains

open BlockTable Ledger Tables

namespace Bench

variable {setup : IntakeSetup} {bench : Bench Tables} {item : QueuedBlock} {now : Timestamp}
  {dependency : BlockHash}

theorem foldl_removeParked (waiting : List (ParkedKey × ParkedBlock)) (tables : Tables) :
    waiting.foldl (fun store entry => Store.removeParked entry.1 store) tables
      = { tables with
          parked := waiting.foldl (fun parked entry => parked.erase entry.1) tables.parked } := by
  induction waiting generalizing tables with
  | nil => rfl
  | cons entry rest inductionHypothesis =>
      rw [List.foldl_cons, List.foldl_cons, inductionHypothesis]
      rfl

theorem get?_foldl_erase (waiting : List (ParkedKey × ParkedBlock))
    (parked : Table ParkedKey ParkedBlock) (key : ParkedKey) :
    (waiting.foldl (fun parked entry => parked.erase entry.1) parked).get? key
      = if key ∈ waiting.map Prod.fst then none else parked.get? key := by
  induction waiting generalizing parked with
  | nil => simp
  | cons entry rest inductionHypothesis =>
      rw [List.foldl_cons, inductionHypothesis, Table.get?_erase, List.map_cons]
      by_cases later : key ∈ rest.map Prod.fst <;> by_cases here : key = entry.1 <;>
        simp [later, here]

/-- Taking up what is parked under a block removes exactly that. -/
theorem foldl_erase_filter (parked : Table ParkedKey ParkedBlock) (dependency : BlockHash) :
    (parked.filter fun key => key.dependency == dependency).foldl
        (fun parked entry => parked.erase entry.1) parked
      = parked.restrict fun key _ => key.dependency ≠ dependency := by
  ext1 key
  ext1 waiting
  have listed : key ∈ (parked.filter fun key => key.dependency == dependency).map Prod.fst ↔
      key.dependency = dependency ∧ ∃ waiting, parked.get? key = some waiting := by
    simp only [Table.filter, List.mem_map, List.mem_filter, Prod.exists, beq_iff_eq,
      Table.mem_entries_iff]
    constructor
    · rintro ⟨other, waiting, ⟨found, isDependency⟩, rfl⟩
      exact ⟨isDependency, waiting, found⟩
    · rintro ⟨isDependency, waiting, found⟩
      exact ⟨key, waiting, ⟨found, isDependency⟩, rfl⟩
  rw [get?_foldl_erase, Table.get?_restrict, Option.filter_eq_some_iff]
  by_cases isDependency : key.dependency = dependency
  · by_cases stored : ∃ waiting, parked.get? key = some waiting
    · simp [listed, isDependency, stored]
    · push Not at stored
      simp [stored]
  · simp [listed, isDependency]

theorem takeParked_eq (settings : IntakeSettings) (deletes : settings.uncheckedDeletion)
    (bench : Bench Tables) (dependency : BlockHash) : ∃ requeue : Option Requeue,
      bench.takeParked settings dependency = (.ok requeue, { bench with
        store := { bench.store with
          parked := bench.store.parked.restrict fun key _ => key.dependency ≠ dependency } }) ∧
      (requeue.map Requeue.rest).getD []
        = (bench.store.parked.filter fun key => key.dependency == dependency).map Prod.snd := by
  have erased := foldl_erase_filter bench.store.parked dependency
  unfold takeParked
  simp only [parked_eq_filter]
  cases waiting : bench.store.parked.filter fun key => key.dependency == dependency with
  | nil =>
      rw [waiting] at erased
      rw [← erased]
      exact ⟨none, rfl, rfl⟩
  | cons entry rest =>
      simp only [if_pos deletes, foldl_removeParked]
      rw [waiting] at erased
      rw [← erased]
      exact ⟨_, rfl, rfl⟩

/-- What handling a block that is to be delivered comes to. -/
inductive Handles (constants : LedgerConstants) (final : Tables) (now : Timestamp)
    (item : QueuedBlock) (bench : Bench Tables) :
    Except Failure (Receipt × Option Requeue) × Bench Tables → Prop where
  | landed {receipt : Receipt} {requeue : Option Requeue} {sideband : Sideband}
      {events : List Event} {metrics : Metrics}
      (found : final.blocks.get? item.hash = some ⟨item.block, sideband⟩)
      (coherent : (bench.store.append
        ⟨item.block, { sideband with timestamp := now }⟩).Coherent constants)
      (waiting : (requeue.map Requeue.rest).getD []
        = (bench.store.parked.filter fun key => key.dependency == item.hash).map Prod.snd) :
      Handles constants final now item bench (.ok (receipt, requeue),
        ⟨{ bench.store.append ⟨item.block, { sideband with timestamp := now }⟩ with
          parked := bench.store.parked.restrict fun key _ => key.dependency ≠ item.hash },
          events, metrics⟩)
  | parked {receipt : Receipt} {dependency : BlockHash} (verified : Verification)
      {events : List Event} {metrics : Metrics}
      (missing : bench.store.blocks.contains dependency = false)
      (depends : DependsOn constants.genesis.hash final.blocks item.hash dependency)
      (expected : final.blocks.contains dependency) :
      Handles constants final now item bench (.ok (receipt, none),
        ⟨{ bench.store with
          parked := bench.store.parked.insert ⟨dependency, item.hash⟩ (item.toParked verified) },
          events, metrics⟩)

/-- A block with a missing source is parked under the send that it receives. -/
theorem missingSource_eq {block : Block} {sideband : Sideband} {source : BlockHash}
    (receives : StoredBlock.transfer ⟨block, sideband⟩ = .receives source)
    (named : source ≠ .zero) : missingSource block = source := by
  unfold missingSource
  cases form : block.content with
  | send | change => simp [StoredBlock.transfer, form] at receives
  | receive content | opening content =>
      simp only [StoredBlock.transfer, form, Transfer.receives.injEq] at receives
      subst receives
      simp [Block.source, form, Content.source, named]
  | state content =>
      simp only [StoredBlock.transfer, form] at receives
      split at receives
      · simp at receives
      split at receives
      · simpa [Block.source, Block.link, form, Content.source, Content.link] using receives
      · simp at receives

/-- A block that is due gets into the ledger or is parked. -/
theorem handles_offer {final : Tables} {sideband : Sideband} (sound : setup.constants.Sound)
    (deletes : setup.settings.uncheckedDeletion) (now : Timestamp)
    (due : Due setup.constants bench.store final ⟨item.block, sideband⟩) :
    Handles setup.constants final now item bench (bench.offer setup now item) := by
  have tries : Tries bench.store now ⟨item.block, sideband⟩
      ((process setup.constants now item.verified item.block).run bench.store) :=
    due.tries sound now
  have coherent (receipt : Receipt) (written : Tables)
      (returned : (process setup.constants now item.verified item.block).run bench.store
        = (.ok receipt, written)) (progresses : receipt.verdict = .progress) :
      written.Coherent setup.constants :=
    Grows.coherent_next due.partCoherent sound
      (⟨receipt, returned, progresses⟩ :
        Grows setup.constants bench.store ⟨now, item.verified, item.block⟩ written)
      (due.finalCoherent.keyed due.found).2
  unfold offer
  cases outcome : (process setup.constants now item.verified item.block).run bench.store with
  | mk answer written =>
    rw [outcome] at tries
    cases tries with
    | @taken receipt progresses =>
        have grown := coherent _ _ outcome progresses
        cases isLive : item.modified.isWithin setup.settings.liveWindowSecs now
        all_goals
          simp only [follow, progresses, isLive, Bool.false_eq_true, if_true, if_false]
          obtain ⟨requeue, took, waiting⟩ := takeParked_eq setup.settings deletes _ item.hash
          rw [took]
          exact .landed due.found grown waiting
    | @gapPrevious receipt isGap later absent =>
        simp only [follow, isGap]
        exact .parked receipt.verified ((Table.contains_eq_false_iff _ _).mpr absent)
          due.dependsOn_previous ((Table.contains_eq_true_iff _ _).mpr (due.finalPrevious later))
    | @gapSource receipt source isGap receives absent =>
        obtain ⟨send, found⟩ := due.finalSource receives
        simp only [follow, isGap,
          missingSource_eq receives (due.finalCoherent.keyed found).2]
        exact .parked receipt.verified ((Table.contains_eq_false_iff _ _).mpr absent)
          (due.dependsOn_source receives) ((Table.contains_eq_true_iff _ _).mpr ⟨send, found⟩)

end Bench

end AccountChains
