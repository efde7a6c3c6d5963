import AccountChains.Ledger.Step

/-!
Contract: the voting weight of representatives.

While a ledger is being filled, its own weights mean little, so a snapshot of
weights may stand in for them. It does so while the ledger has fewer blocks than
a given count; the first question asked at or above that count gives the snapshot
up for good.

Owns: the snapshot and the question. Does not own: how weights change.
-/

namespace AccountChains.Ledger

/-- Weights that stand in for those of a ledger that is being filled. -/
structure WeightSnapshot where
  weights : Table Account Amount
  maxBlocks : UInt64
  /-- Whether the snapshot has not been given up. -/
  active : Bool

namespace WeightSnapshot

def none (maxBlocks : UInt64) : WeightSnapshot := ⟨.empty, maxBlocks, true⟩

/-- The given weights; of several weights for one account the last one counts. -/
def ofList (weights : List (Account × Amount)) (maxBlocks : UInt64) : WeightSnapshot where
  weights := weights.foldl (fun table entry => table.insert entry.1 entry.2) .empty
  maxBlocks := maxBlocks
  active := true

end WeightSnapshot

/-- The voting weight of a representative, and the snapshot after the question. -/
def weight {σ : Type} [Store σ] (snapshot : WeightSnapshot) (store : σ)
    (representative : Account) : Answer Amount × WeightSnapshot :=
  let live := stored (Store.weight store representative)
  if snapshot.active then
    if (Store.counts store).blocks < snapshot.maxBlocks.toNat then
      match snapshot.weights.get? representative with
      | some weight => (.ok weight, snapshot)
      | none => (live, snapshot)
    else (live, { snapshot with active := false })
  else (live, snapshot)

end AccountChains.Ledger
