import AccountChains.Proofs.Ledger.Watching

/-!
Contract: the weight of representatives.

A representative has the weight of the balances that vote for it, no more and no
less, and no weight of zero is kept. What an account takes from one
representative it had given before, and what it gives to the next one is covered
by the supply. So every weight that is written is the natural number that the
move says, also between the moves of one call.

Owns: the meaning of weights in every state that a ledger gets into, and the
range of every move. Does not own: which moves a call makes.
-/

namespace AccountChains

open BlockTable Tables

namespace WeightMove

/-- A weight is written by a move, and the natural numbers agree. -/
def Explains : WeightMove → WeightChange → Prop
  | .taken representative amount, change => change.representative = representative ∧
      change.after.toNat + amount.toNat = change.before.toNat
  | .given representative amount, change => change.representative = representative ∧
      change.before.toNat + amount.toNat = change.after.toNat

/-- No move in a row leaves the range of amounts. -/
def InRange (weight : Account → Amount) (moves : List WeightMove) : Prop :=
  List.Forall₂ Explains moves (trail weight moves)

section Range

variable {weight : Account → Amount} {representative : Account} {amount : Amount}
  {rest first second : List WeightMove}

theorem InRange.nil : InRange weight [] := List.Forall₂.nil

theorem InRange.taken (covered : amount.toNat ≤ (weight representative).toNat)
    (further : InRange (Function.update weight representative
      ((weight representative).wrappingSub amount)) rest) :
    InRange weight (.taken representative amount :: rest) := by
  refine .cons ⟨rfl, ?_⟩ further
  rw [change, Amount.toNat_wrappingSub covered]
  exact Nat.sub_add_cancel covered

theorem InRange.given (fits : (weight representative).toNat + amount.toNat < Amount.size)
    (further : InRange (Function.update weight representative
      ((weight representative).wrappingAdd amount)) rest) :
    InRange weight (.given representative amount :: rest) := by
  refine .cons ⟨rfl, ?_⟩ further
  rw [change, Amount.toNat_wrappingAdd_of_lt fits]

theorem InRange.append (inRange : InRange weight first)
    (further : InRange (moved weight first) second) : InRange weight (first ++ second) := by
  unfold InRange
  rw [trail_append]
  exact List.rel_append inRange further

/-- A row of moves may stop early. -/
theorem InRange.of_prefix (inRange : InRange weight second) (isPrefix : first <+: second) :
    InRange weight first := by
  obtain ⟨rest, rfl⟩ := isPrefix
  have taken := List.forall₂_take first.length inRange
  rwa [trail_append, List.take_left, List.take_left' (length_trail weight first)] at taken

end Range

end WeightMove

namespace Ledger

open WeightMove

/-- No weight that a ledger writes is out of range: what a call writes on the way is explained by
its moves, in natural numbers. -/
structure WeightsInRange (constants : LedgerConstants) (tables : Tables) : Prop where
  /-- An overflow of the block count ends the call between two moves. -/
  processes : ∀ now hint block, block.hash ≠ .zero → ∃ moves changes,
    (process constants now hint block).run (⟨tables, []⟩ : Watched)
      = (((process constants now hint block).run tables).1,
          ⟨((process constants now hint block).run tables).2, changes⟩) ∧
    List.Forall₂ Explains moves changes ∧
    moves <+: weightMoves constants hint block tables ∧
    ∀ receipt, ((process constants now hint block).run tables).1 = .ok receipt →
      moves = weightMoves constants hint block tables
  rollbacks : ∀ {hash stored}, tables.blocks.get? hash = some stored →
    hash ≠ constants.genesis.hash → ∃ changes,
    rollback hash (⟨tables, []⟩ : Watched) = ⟨⟨(rollback hash tables).store, changes⟩,
      (rollback hash tables).undone, (rollback hash tables).outcome⟩ ∧
    List.Forall₂ Explains ((rollback hash tables).undone.flatMap (undoMoves tables)) changes

/-- What waits to be received altogether. -/
def unreceived (tables : Tables) : Nat :=
  tables.receivables.total fun _ receivable => receivable.amount.toNat

section Weights

variable {constants : LedgerConstants} {tables : Tables} (coherent : tables.Coherent constants)

include coherent

theorem delegated_add_le (representative : Account) :
    tables.delegated representative + unreceived tables ≤ constants.genesisAmount.toNat := by
  have held : tables.delegated representative
      ≤ tables.accounts.total fun _ record => record.balance.toNat :=
    Table.total_le_total fun account record _ => by unfold delegation; split <;> omega
  have conserved := coherent.conserved
  unfold supply at conserved
  unfold unreceived
  omega

/-- A weight is what is delegated, as a natural number. -/
theorem toNat_weight (representative : Account) :
    (tables.weight representative).toNat = tables.delegated representative := by
  have bounded := delegated_add_le coherent representative
  have range := constants.genesisAmount.toNat_lt
  rw [coherent.weighed, Amount.toNat_ofNat_of_lt (by omega)]

omit coherent in
theorem representative?_eq {account : Account} {record : AccountRecord}
    (recorded : tables.accounts.get? account = some record) :
    representative? tables account = .ok (representativeOf tables.blocks record) := by
  simp only [representative?, stored, Store.account?, recorded, Except.mapError, bind, Except.bind]
  rfl

omit coherent in
theorem delegated_eq (representative : Account) :
    tables.delegated representative = tables.accounts.total fun account record =>
      if representative? tables account = .ok (some representative) then record.balance.toNat
      else 0 := by
  refine Table.total_congr fun account record recorded => ?_
  unfold delegation
  simp only [representative?_eq recorded, Except.ok.injEq]

section Account

variable {account : Account} {record : AccountRecord}
  (recorded : tables.accounts.get? account = some record)

include recorded

/-- The weight of the representative of an account covers the balance. -/
theorem balance_le_weight :
    record.balance.toNat ≤ (tables.weight (voted tables.blocks record)).toNat := by
  obtain ⟨head, describes⟩ := coherent.recorded recorded
  obtain ⟨named, leads⟩ := describes.leads
  have share := Table.share_le_total (delegation tables.blocks named) tables.accounts account
  rw [Table.share_of_some recorded, delegation, if_pos leads] at share
  rw [toNat_weight coherent, voted, leads, Option.getD_some]
  exact share

/-- Without the vote of an account, a representative has what the other accounts delegate. -/
theorem toNat_weight_without (representative : Account) :
    (moved tables.weight [.taken (voted tables.blocks record) record.balance]
      representative).toNat
      = (tables.accounts.erase account).total (delegation tables.blocks representative) := by
  obtain ⟨head, describes⟩ := coherent.recorded recorded
  obtain ⟨named, leads⟩ := describes.leads
  have covered := balance_le_weight coherent recorded
  have split := Table.total_erase (delegation tables.blocks representative) tables.accounts account
  have delegated := toNat_weight coherent representative
  rw [Table.share_of_some recorded, delegation, leads] at split
  rw [voted, leads, Option.getD_some] at covered
  unfold Tables.delegated at delegated
  simp only [moved, change, voted, leads, Option.getD_some, Function.update_apply]
  by_cases same : representative = named
  · subst same
    rw [if_pos rfl, Amount.toNat_wrappingSub covered]
    rw [if_pos rfl] at split
    omega
  · have different : some named ≠ some representative :=
      fun isNamed => same (Option.some.inj isNamed).symm
    rw [if_neg different] at split
    rw [if_neg same]
    omega

theorem without_add_le (representative : Account) :
    (tables.accounts.erase account).total (delegation tables.blocks representative)
      + record.balance.toNat + unreceived tables ≤ constants.genesisAmount.toNat := by
  have held : (tables.accounts.erase account).total (delegation tables.blocks representative)
      ≤ (tables.accounts.erase account).total fun _ record => record.balance.toNat :=
    Table.total_le_total fun account record _ => by unfold delegation; split <;> omega
  have split := Table.total_erase (fun _ record => record.balance.toNat) tables.accounts account
  rw [Table.share_of_some recorded] at split
  have conserved := coherent.conserved
  unfold supply at conserved
  unfold unreceived
  omega

end Account

/-- An account may give its vote to anyone, with all that it has and all that waits. -/
theorem inRange_vote {account : Account} {existing : Option AccountRecord}
    (recorded : tables.accounts.get? account = existing) (representative : Account)
    (amount : Amount) (bounded : amount.toNat ≤ (balanceOf existing).toNat + unreceived tables) :
    InRange tables.weight
      ((existing.map fun record => WeightMove.taken (voted tables.blocks record)
        record.balance).toList ++ [.given representative amount]) := by
  have range := constants.genesisAmount.toNat_lt
  cases existing with
  | none =>
      have empty : (balanceOf none).toNat = 0 := rfl
      have delegated := delegated_add_le coherent representative
      refine .given ?_ .nil
      rw [toNat_weight coherent]
      omega
  | some record =>
      have without := without_add_le coherent recorded representative
      have held : (balanceOf (some record)).toNat = record.balance.toNat := rfl
      refine .append (.taken (balance_le_weight coherent recorded) .nil) (.given ?_ .nil)
      have left := toNat_weight_without coherent recorded representative
      simp only [Option.map_some, Option.toList_some, left]
      omega

theorem inRange_moves {hint : Verification} {block : Block} {entry : Entry}
    (accepted : Accepted constants hint block tables entry) :
    InRange tables.weight (entry.moves tables.blocks) := by
  have waits {key : ReceivableKey} {receivable : Receivable}
      (found : tables.receivables.get? key = some receivable) :
      receivable.amount.toNat ≤ unreceived tables := by
    have share := Table.share_le_total (fun _ receivable => receivable.amount.toNat)
      tables.receivables key
    rwa [Table.share_of_some found] at share
  have range := constants.genesisAmount.toNat_lt
  cases accepted with
  | @send account record content form follows covered =>
      rw [Amount.lt_iff_toNat_lt, Nat.not_lt] at covered
      have held := balance_le_weight coherent follows.recorded
      refine .taken ?_ .nil
      rw [Amount.toNat_wrappingSub covered]
      omega
  | @receive account record content receivable form follows source last found =>
      have delegated := delegated_add_le coherent (voted tables.blocks record)
      have amount := waits found
      refine .given ?_ .nil
      rw [toNat_weight coherent]
      omega
  | opening form absent signed source unopened found =>
      exact inRange_vote coherent unopened _ _ (Nat.le_add_left_of_le (waits found))
  | change form follows =>
      exact inRange_vote coherent follows.recorded _ _ (Nat.le_add_right _ _)
  | outgoing form absent signed continues spends =>
      exact inRange_vote coherent continues.recorded _ _
        (Nat.le_add_right_of_le (Nat.le_of_lt ((Amount.lt_iff_toNat_lt _ _).mp spends)))
  | standing form absent signed continues unlinked keeps =>
      exact inRange_vote coherent continues.recorded _ _ (keeps ▸ Nat.le_add_right _ _)
  | @incoming existing content receivable form absent signed continues covered linked source found
      gains =>
      refine inRange_vote coherent continues.recorded _ _ ?_
      rw [Amount.lt_iff_toNat_lt, Nat.not_lt] at covered
      have gained := congrArg Amount.toNat gains
      rw [Amount.toNat_wrappingSub covered] at gained
      have amount := waits found
      omega
  | upgrade => exact .nil

theorem inRange_undoMoves (sound : constants.Sound) {record : AccountRecord} {head : StoredBlock}
    {before : Option AccountRecord} (removable : Removable constants tables record head)
    (precedes : Precedes tables.blocks record head before) :
    InRange tables.weight (undoMoves tables record.head) := by
  have balance := (coherent.removable_recorded removable).balance
  have held : (balanceOf (some record)).toNat = record.balance.toNat := rfl
  rw [← moves_reversalOf coherent sound removable precedes]
  cases precedes with
  | first isFirst =>
      have vote := inRange_vote coherent removable.owned .zero .zero (Nat.zero_le _)
      exact vote.of_prefix (List.prefix_append _ _)
  | @later previous naming found named =>
      have before : balanceBefore tables.blocks head = previous.sideband.balance := by
        simp [balanceBefore, found]
      have waits := coherent.retract_receivables none removable
      rw [before, ← balance] at waits
      refine inRange_vote coherent removable.owned _ _ ?_
      change previous.sideband.balance.toNat ≤ _
      unfold unreceived
      omega

/-- Undoing stays in range all the way. -/
theorem inRange_removes (sound : constants.Sound) {undone : List BlockHash} {final : Tables}
    (removes : Removes constants tables undone final) :
    InRange tables.weight (undone.flatMap (undoMoves tables)) := by
  induction removes with
  | done => exact .nil
  | next removable precedes rest inductionHypothesis =>
      have step := Removes.next removable precedes (.done _)
      have further := inductionHypothesis (coherent.retract sound removable precedes)
      rw [flatMap_undoMoves coherent sound step rest, step.weight_eq coherent sound,
        List.flatMap_singleton] at further
      exact (inRange_undoMoves coherent sound removable precedes).append further

theorem weightsInRange (sound : constants.Sound) : WeightsInRange constants tables where
  processes now hint block named := by
    obtain ⟨moves, isPrefix, makes, complete⟩ := performs_process coherent named now hint
    refine ⟨moves, trail tables.weight moves, makes.run [], ?_, isPrefix, complete⟩
    have planned : InRange tables.weight (weightMoves constants hint block tables) := by
      unfold weightMoves
      split
      · next entry judged => exact inRange_moves coherent (accepted_of_judge judged)
      · exact .nil
      · exact .nil
    exact planned.of_prefix isPrefix
  rollbacks found notGenesis := by
    have undoes := rollback_watched coherent sound found notGenesis
    exact ⟨_, undoes.same, inRange_removes coherent sound undoes.removes⟩

end Weights

/-- In every state that a ledger gets into, a representative has the weight of the balances that
vote for it, no weight of zero is kept, and no weight is out of range on the way to the next
state. -/
theorem Reachable.weights_exact {constants : LedgerConstants} {tables : Tables}
    (reachable : Reachable constants tables) (sound : constants.Sound) :
    (∀ representative, (tables.weight representative).toNat
      = tables.accounts.total fun account record =>
          if representative? tables account = .ok (some representative) then record.balance.toNat
          else 0) ∧
    tables.Tidy ∧ WeightsInRange constants tables := by
  have coherent := reachable.coherent sound
  refine ⟨fun representative => ?_, coherent.tidy, weightsInRange coherent sound⟩
  rw [toNat_weight coherent, delegated_eq]

theorem devReceived_weights_exact :
    (∀ representative, (devReceived.weight representative).toNat
      = devReceived.accounts.total fun account record =>
          if representative? devReceived account = .ok (some representative)
          then record.balance.toNat else 0) ∧
    devReceived.Tidy ∧ WeightsInRange .dev devReceived :=
  Reachable.weights_exact reachable_devReceived dev_sound

end Ledger

end AccountChains
