import Mathlib.Data.List.Pairwise
import AccountChains.Proofs.Ledger.Reversal

/-!
Contract: undoing a block and all that builds on it.

Undoing takes heads away one after another until the block is gone. `Removes` is
such a sequence. Every head depends on the block that is to be undone, and a block
can only be taken away when nothing depends on it any more; so what is taken away
is exactly what depends on the block, dependents first.

Every step back to another chain goes up in the ranking of dependencies, and
every removal makes the ledger smaller. This bounds the depth.

Owns: `Removes`, what it removes, and the outcome of `rollback`. Does not own: one
step of undoing.
-/

namespace AccountChains

open BlockTable Tables

namespace Ledger

/-- A sequence of heads is taken away, one after another. -/
inductive Removes (constants : LedgerConstants) : Tables → List BlockHash → Tables → Prop where
  | done (tables : Tables) : Removes constants tables [] tables
  | next {tables final : Tables} {record : AccountRecord} {head : StoredBlock}
      {before : Option AccountRecord} {undone : List BlockHash}
      (removable : Removable constants tables record head)
      (precedes : Precedes tables.blocks record head before)
      (rest : Removes constants (tables.retract record head before) undone final) :
      Removes constants tables (record.head :: undone) final

namespace Removes

variable {constants : LedgerConstants} {tables middle final : Tables}
  {undone others : List BlockHash} {hash dependency : BlockHash} {stored : StoredBlock}

theorem append (first : Removes constants tables undone middle)
    (second : Removes constants middle others final) :
    Removes constants tables (undone ++ others) final := by
  induction first with
  | done => exact second
  | next removable precedes _ inductionHypothesis =>
      exact .next removable precedes (inductionHypothesis second)

theorem outside (removes : Removes constants tables undone final) :
    final.parked = tables.parked ∧ final.version = tables.version := by
  induction removes with
  | done => exact ⟨rfl, rfl⟩
  | next _ _ _ inductionHypothesis => exact inductionHypothesis

/-- What is not removed stays as it is, sideband included. -/
theorem found_iff (removes : Removes constants tables undone final) :
    final.blocks.get? hash = some stored ↔
      hash ∉ undone ∧ tables.blocks.get? hash = some stored := by
  induction removes with
  | done => simp
  | next _ _ _ inductionHypothesis =>
      rw [inductionHypothesis, found_retract, List.mem_cons]
      tauto

theorem absent_of_mem (removes : Removes constants tables undone final) (removed : hash ∈ undone) :
    final.blocks.get? hash = none := by
  cases found : final.blocks.get? hash with
  | none => rfl
  | some stored => exact absurd removed (removes.found_iff.mp found).1

theorem stored_of_mem (removes : Removes constants tables undone final) (removed : hash ∈ undone) :
    hash ≠ constants.genesis.hash ∧ ∃ stored, tables.blocks.get? hash = some stored := by
  induction removes with
  | done => simp at removed
  | next removable _ _ inductionHypothesis =>
      rcases List.mem_cons.mp removed with rfl | later
      · exact ⟨removable.notGenesis, _, removable.found⟩
      · obtain ⟨notGenesis, stored, found⟩ := inductionHypothesis later
        exact ⟨notGenesis, stored, (found_retract.mp found).2⟩

/-- What is stored before and not after was removed. -/
theorem mem_of_absent (removes : Removes constants tables undone final)
    (found : tables.blocks.get? hash = some stored) (gone : final.blocks.get? hash = none) :
    hash ∈ undone := by
  by_contra kept
  simp [removes.found_iff.mpr ⟨kept, found⟩] at gone

theorem dependsOn_mono (removes : Removes constants tables undone final)
    (depends : DependsOn constants.genesis.hash final.blocks hash dependency) :
    DependsOn constants.genesis.hash tables.blocks hash dependency := by
  obtain ⟨block, found, builds⟩ := depends
  exact ⟨block, (removes.found_iff.mp found).2, builds⟩

theorem size_eq (removes : Removes constants tables undone final) :
    final.blocks.size + undone.length = tables.blocks.size := by
  induction removes with
  | done => rfl
  | next removable _ _ inductionHypothesis =>
      have smaller := Table.size_erase removable.found
      rw [List.length_cons, ← smaller]
      exact congrArg Nat.succ inductionHypothesis

section Coherence

variable (removes : Removes constants tables undone final) (sound : constants.Sound)
  (coherent : tables.Coherent constants)

include removes sound coherent

theorem coherent_final : final.Coherent constants := by
  induction removes with
  | done => exact coherent
  | next removable precedes _ inductionHypothesis =>
      exact inductionHypothesis (coherent.retract sound removable precedes)

theorem nodup : undone.Nodup := by
  induction removes with
  | done => exact List.nodup_nil
  | next removable precedes rest inductionHypothesis =>
      have distinct := inductionHypothesis (coherent.retract sound removable precedes)
      refine List.nodup_cons.mpr ⟨?_, distinct⟩
      intro again
      obtain ⟨-, stored, found⟩ := rest.stored_of_mem again
      exact (found_retract.mp found).1 rfl

/-- What builds on a removed block is removed before it. -/
theorem dependent_first (removed : dependency ∈ undone)
    (depends : DependsOn constants.genesis.hash tables.blocks hash dependency) :
    hash ∈ undone ∧ undone.idxOf hash < undone.idxOf dependency := by
  induction removes with
  | done => simp at removed
  | @next tables final record head before undone removable precedes rest inductionHypothesis =>
      have later : dependency ∈ undone := by
        rcases List.mem_cons.mp removed with rfl | later
        · exact absurd depends (coherent.removable_loose removable hash)
        · exact later
      obtain ⟨-, stored, found⟩ := rest.stored_of_mem later
      have notHead := (found_retract.mp found).1
      rw [List.idxOf_cons_ne _ notHead.symm]
      by_cases isHead : hash = record.head
      · subst isHead
        refine ⟨List.mem_cons_self, ?_⟩
        rw [List.idxOf_cons_self]
        exact Nat.succ_pos _
      · obtain ⟨block, blockFound, builds⟩ := depends
        obtain ⟨member, before⟩ := inductionHypothesis (coherent.retract sound removable precedes)
          later ⟨block, found_retract.mpr ⟨isHead, blockFound⟩, builds⟩
        refine ⟨List.mem_cons_of_mem _ member, ?_⟩
        rw [List.idxOf_cons_ne _ (Ne.symm isHead)]
        exact Nat.succ_lt_succ before

/-- Everything that builds on a removed block, however far away, is removed before it. -/
theorem dependents_first (removed : dependency ∈ undone)
    (depends : Relation.TransGen (DependsOn constants.genesis.hash tables.blocks) hash
      dependency) :
    hash ∈ undone ∧ undone.idxOf hash < undone.idxOf dependency := by
  induction depends using Relation.TransGen.head_induction_on with
  | single depends => exact removes.dependent_first sound coherent removed depends
  | head depends _ inductionHypothesis =>
      obtain ⟨member, before⟩ := inductionHypothesis
      obtain ⟨isRemoved, earlier⟩ := removes.dependent_first sound coherent member depends
      exact ⟨isRemoved, earlier.trans before⟩

end Coherence

end Removes

/-! ## The depth -/

/-- How many stored blocks are ranked above a given one. -/
def above (rank : BlockHash → Nat) (blocks : BlockTable) (hash : BlockHash) : Nat :=
  blocks.total fun other _ => if rank hash < rank other then 1 else 0

theorem above_le_size (rank : BlockHash → Nat) (blocks : BlockTable) (hash : BlockHash) :
    above rank blocks hash ≤ blocks.size := by
  rw [Table.size_eq_total]
  apply Table.total_le_total
  intro other _ _
  split <;> omega

/-- Fewer blocks are ranked above a stored block that is itself above. -/
theorem above_lt {rank : BlockHash → Nat} {blocks : BlockTable} {hash higher : BlockHash}
    {stored : StoredBlock} (found : blocks.get? higher = some stored)
    (isHigher : rank hash < rank higher) : above rank blocks higher < above rank blocks hash := by
  unfold above
  have higherSplit := Table.total_erase
    (fun other _ => if rank higher < rank other then 1 else 0) blocks higher
  have split := Table.total_erase (fun other _ => if rank hash < rank other then 1 else 0) blocks
    higher
  rw [Table.share_of_some found] at higherSplit split
  have fewer : (blocks.erase higher).total
        (fun other _ => if rank higher < rank other then 1 else 0)
      ≤ (blocks.erase higher).total fun other _ => if rank hash < rank other then 1 else 0 :=
    Table.total_le_total fun other _ _ => by split <;> split <;> omega
  simp only [isHigher, if_true, Nat.lt_irrefl, if_false] at higherSplit split
  omega

/-- How deep undoing a block may go, if the ledger never holds more blocks than the bound. -/
def depthNeeded (rank : BlockHash → Nat) (bound : Nat) (blocks : BlockTable) (hash : BlockHash) :
    Nat :=
  blocks.size * (bound + 2) + above rank blocks hash + 1

/-- A smaller ledger needs less depth, wherever undoing goes on. -/
theorem depthNeeded_lt (rank : BlockHash → Nat) {bound : Nat} {blocks smaller : BlockTable}
    (bounded : blocks.size ≤ bound) (shrunk : smaller.size < blocks.size)
    (hash other : BlockHash) :
    depthNeeded rank bound smaller other < depthNeeded rank bound blocks hash := by
  have fewer := above_le_size rank smaller other
  have product := Nat.mul_le_mul_right (bound + 2) shrunk
  rw [Nat.succ_mul] at product
  unfold depthNeeded
  omega

/-- A block that is above needs less depth. -/
theorem depthNeeded_lt_of_above {rank : BlockHash → Nat} (bound : Nat) {blocks : BlockTable}
    {hash higher : BlockHash} {stored : StoredBlock} (found : blocks.get? higher = some stored)
    (isHigher : rank hash < rank higher) :
    depthNeeded rank bound blocks higher < depthNeeded rank bound blocks hash := by
  have fewer := above_lt found isHigher
  unfold depthNeeded
  omega

section Unwind

variable {constants : LedgerConstants} {tables : Tables} {hash : BlockHash} {account : Account}

/-- Undoing comes to its end, and takes away only what depends on the block. -/
structure Unwinds (constants : LedgerConstants) (tables : Tables) (hash : BlockHash)
    (undoing : Undoing Tables) : Prop where
  completes : undoing.outcome = .ok ()
  removes : Removes constants tables undoing.undone undoing.store
  gone : undoing.store.blocks.get? hash = none
  dependents : ∀ removed ∈ undoing.undone,
    Relation.ReflTransGen (DependsOn constants.genesis.hash tables.blocks) removed hash

theorem Unwinds.after {middle : Tables} {undone : List BlockHash} {undoing : Undoing Tables}
    (removes : Removes constants tables undone middle)
    (dependents : ∀ removed ∈ undone,
      Relation.ReflTransGen (DependsOn constants.genesis.hash tables.blocks) removed hash)
    (rest : Unwinds constants middle hash undoing) :
    Unwinds constants tables hash (undoing.after undone) where
  completes := rest.completes
  removes := removes.append rest.removes
  gone := rest.gone
  dependents removed member := by
    rcases List.mem_append.mp member with first | second
    · exact dependents removed first
    · exact Relation.ReflTransGen.mono (fun _ _ => removes.dependsOn_mono) _ _
        (rest.dependents removed second)

theorem ownerToUndo_eq {stored : StoredBlock} (found : tables.blocks.get? hash = some stored) :
    ownerToUndo tables hash = .ok stored.sideband.account := by
  have contained : Store.hasBlock tables hash = true :=
    (tables.blocks.contains_eq_true_iff hash).mpr ⟨stored, found⟩
  unfold ownerToUndo
  simp only [contained, account?, AccountChains.stored, Store.block?, found, required, bind,
    Except.bind, pure, Except.pure, Except.mapError, Bool.not_true, Bool.false_eq_true, if_false,
    Option.map_some]

theorem unwind_absent (depth : Nat) (account : Account) (absent : tables.blocks.get? hash = none) :
    unwind (depth + 1) hash account tables = ⟨tables, [], .ok ()⟩ := by
  have missing : Store.hasBlock tables hash = false :=
    (tables.blocks.contains_eq_false_iff hash).mpr absent
  simp only [unwind, missing, Bool.not_false, if_true]

theorem unwinds_of_enough (sound : constants.Sound) {rank : BlockHash → Nat} {bound depth : Nat}
    (coherent : tables.Coherent constants)
    (ranked : Ranked constants.genesis.hash tables.blocks rank)
    (bounded : tables.blocks.size ≤ bound) (notGenesis : hash ≠ constants.genesis.hash)
    (owner : ∀ stored, tables.blocks.get? hash = some stored → stored.sideband.account = account)
    (enough : depthNeeded rank bound tables.blocks hash ≤ depth) :
    Unwinds constants tables hash (unwind depth hash account tables) := by
  induction depth generalizing tables hash account with
  | zero => simp [depthNeeded] at enough
  | succ depth inductionHypothesis =>
      cases found : tables.blocks.get? hash with
      | none =>
          rw [unwind_absent depth account found]
          exact ⟨rfl, .done _, found, by simp⟩
      | some stored =>
          obtain rfl := owner stored found
          obtain ⟨record, head, step, headFound, headOwner, depends, next, spec⟩ :=
            nextUndo_spec coherent sound found notGenesis
          have contained : Store.hasBlock tables hash = true :=
            (tables.blocks.contains_eq_true_iff hash).mpr ⟨stored, found⟩
          simp only [unwind, contained, Bool.not_true, Bool.false_eq_true, if_false, next]
          cases spec with
          | reverse removable precedes =>
              simp only [run_apply coherent removable precedes]
              have removes := Removes.next removable precedes (.done _)
              have shrunk := removes.size_eq
              rw [List.length_singleton] at shrunk
              have less := depthNeeded_lt rank bounded (Nat.lt_of_succ_le shrunk.le) hash hash
              refine .after removes (by simpa using depends) (inductionHypothesis
                (removes.coherent_final sound coherent)
                (fun _ _ builds => ranked _ _ (removes.dependsOn_mono builds)) (by omega) notGenesis
                (fun other otherFound => owner other (found_retract.mp otherFound).2) (by omega))
          | @dependency dependency other dependencyFound dependencyNotGenesis isAbove =>
              simp only [ownerToUndo_eq dependencyFound]
              -- First the head of the receiving chain goes, then the block is tried again.
              have isHigher := isAbove.trans_left depends
              have higherNeeded := depthNeeded_lt_of_above bound dependencyFound
                (ranked.lt_of_transGen isHigher)
              have dependencyOwner (block : StoredBlock)
                  (blockFound : tables.blocks.get? dependency = some block) :
                  block.sideband.account = other.sideband.account := by
                obtain rfl := Option.some.inj (dependencyFound.symm.trans blockFound)
                rfl
              have first := inductionHypothesis coherent ranked bounded dependencyNotGenesis
                dependencyOwner (by omega)
              have removes := first.removes
              have shrunk := removes.size_eq
              have nonempty := List.length_pos_of_mem
                (removes.mem_of_absent dependencyFound first.gone)
              have smaller : (unwind depth dependency other.sideband.account
                  tables).store.blocks.size < tables.blocks.size := by omega
              have less := depthNeeded_lt rank bounded smaller hash hash
              rw [first.completes]
              exact .after removes
                (fun removed member =>
                  (first.dependents removed member).trans isHigher.to_reflTransGen)
                (inductionHypothesis (removes.coherent_final sound coherent)
                  (fun _ _ builds => ranked _ _ (removes.dependsOn_mono builds)) (by omega)
                  notGenesis
                  (fun block blockFound => owner block (removes.found_iff.mp blockFound).2)
                  (by omega))

/-- Undoing a stored block other than the genesis block comes to its end. -/
theorem rollback_unwinds (coherent : tables.Coherent constants) (sound : constants.Sound)
    {stored : StoredBlock} (found : tables.blocks.get? hash = some stored)
    (notGenesis : hash ≠ constants.genesis.hash) :
    Unwinds constants tables hash (rollback hash tables) := by
  obtain ⟨rank, ranked⟩ := coherent.ranked
  unfold rollback
  simp only [ownerToUndo_eq found]
  refine unwinds_of_enough sound coherent ranked le_rfl notGenesis ?_ ?_
  · intro other otherFound
    obtain rfl := Option.some.inj (found.symm.trans otherFound)
    rfl
  · have fewer := above_le_size rank tables.blocks hash
    change depthNeeded rank tables.blocks.size tables.blocks hash
      ≤ (tables.blocks.size + 1) * (tables.blocks.size + 2)
    rw [Nat.succ_mul]
    unfold depthNeeded
    omega

/-- Undoing a block that nothing builds on takes away this block only. -/
theorem rollback_restores {earlier : Tables} {stored : StoredBlock} (sound : constants.Sound)
    (coherent : tables.Coherent constants) (earlierCoherent : earlier.Coherent constants)
    (found : tables.blocks.get? hash = some stored) (notGenesis : hash ≠ constants.genesis.hash)
    (loose : Loose constants.genesis.hash tables.blocks hash)
    (blocks : tables.blocks.erase hash = earlier.blocks) (parked : tables.parked = earlier.parked)
    (version : tables.version = earlier.version) :
    rollback hash tables = ⟨earlier, [hash], .ok ()⟩ := by
  obtain ⟨completes, removes, gone, dependents⟩ := rollback_unwinds coherent sound found notGenesis
  have only (removed : BlockHash) (member : removed ∈ (rollback hash tables).undone) :
      removed = hash := by
    rcases (dependents removed member).cases_tail with same | ⟨dependent, -, depends⟩
    · exact same.symm
    · exact absurd depends (loose dependent)
  have undone : (rollback hash tables).undone = [hash] := by
    apply List.Perm.eq_singleton
    refine (List.perm_ext_iff_of_nodup (removes.nodup sound coherent)
      (List.nodup_singleton hash)).mpr fun removed => ?_
    rw [List.mem_singleton]
    refine ⟨only removed, ?_⟩
    rintro rfl
    exact removes.mem_of_absent found gone
  have store : (rollback hash tables).store = earlier := by
    obtain ⟨sameParked, sameVersion⟩ := removes.outside
    refine (removes.coherent_final sound coherent).eq_of_blocks earlierCoherent ?_
      (sameParked.trans parked) (sameVersion.trans version)
    rw [← blocks]
    ext1 other
    ext1 block
    rw [removes.found_iff, undone, List.mem_singleton, Table.get?_erase]
    split
    · next same => simp [same]
    · next different => simp [different]
  rw [← undone, ← store, ← completes]

end Unwind

end Ledger

end AccountChains
