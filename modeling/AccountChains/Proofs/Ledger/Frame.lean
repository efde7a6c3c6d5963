import AccountChains.Proofs.Ledger.Chains

/-!
Contract: changing the block table at a hash that no block depends on.

What is said about a block reads the block table at its predecessor, at the send
it receives, and at that send's predecessor. A hash that nothing depends on is
none of these, so storing or removing a block there leaves everything that is
said about the other blocks as it was.
-/

namespace AccountChains

open BlockTable

namespace BlockTable

/-- No block depends on the hash. -/
def Loose (genesis : BlockHash) (blocks : BlockTable) (hash : BlockHash) : Prop :=
  ∀ dependent, ¬ DependsOn genesis blocks dependent hash

/-- The tables differ at most at one hash. -/
def SameElsewhere (changed : BlockHash) (left right : BlockTable) : Prop :=
  ∀ hash, hash ≠ changed → right.get? hash = left.get? hash

theorem sameElsewhere_insert (blocks : BlockTable) (hash : BlockHash) (stored : StoredBlock) :
    SameElsewhere hash blocks (blocks.insert hash stored) :=
  fun _ different => blocks.get?_insert_of_ne different stored

theorem sameElsewhere_erase (blocks : BlockTable) (hash : BlockHash) :
    SameElsewhere hash blocks (blocks.erase hash) :=
  fun _ different => blocks.get?_erase_of_ne different

variable {genesis changed hash : BlockHash} {left right : BlockTable} {stored : StoredBlock}

theorem Loose.previous_ne (loose : Loose genesis left changed)
    (found : left.get? hash = some stored) : stored.block.previous ≠ changed :=
  fun same => loose hash ⟨stored, found, .inl same⟩

theorem Loose.unreceived (loose : Loose genesis left changed) :
    Unreceived genesis left changed :=
  fun hash stored found notGenesis receives =>
    loose hash ⟨stored, found, .inr ⟨notGenesis, receives⟩⟩

section Frame

variable (same : SameElsewhere changed left right)

include same

theorem SameElsewhere.balanceBefore_eq (previous : stored.block.previous ≠ changed) :
    balanceBefore right stored = balanceBefore left stored := by
  unfold balanceBefore
  rw [same _ previous]

theorem SameElsewhere.sentAmount_eq (previous : stored.block.previous ≠ changed) :
    sentAmount right stored = sentAmount left stored := by
  unfold sentAmount
  rw [same.balanceBefore_eq previous]

theorem SameElsewhere.epochBefore_eq (previous : stored.block.previous ≠ changed) :
    epochBefore right stored = epochBefore left stored := by
  unfold epochBefore
  rw [same _ previous]

theorem SameElsewhere.representativeOf_eq {record : AccountRecord}
    (naming : record.representativeBlock ≠ changed) :
    representativeOf right record = representativeOf left record := by
  unfold representativeOf
  rw [same _ naming]

theorem NamedBy.elsewhere {naming : BlockHash} (named : NamedBy left hash naming)
    (loose : Loose genesis left changed) (different : hash ≠ changed) :
    NamedBy right hash naming := by
  induction named with
  | here found names => exact .here ((same _ different).trans found) names
  | earlier found silent rest inductionHypothesis =>
      exact .earlier ((same _ different).trans found) silent
        (inductionHypothesis (loose.previous_ne found))

theorem Settles.elsewhere (settles : Settles left stored) (loose : Loose genesis left changed)
    (previous : stored.block.previous ≠ changed) (received : stored.transfer ≠ .receives changed) :
    Settles right stored := by
  unfold Settles at settles ⊢
  rw [same.balanceBefore_eq previous]
  cases transfer : stored.transfer with
  | sends destination => simpa only [transfer] using settles
  | neither => simpa only [transfer] using settles
  | receives source =>
      simp only [transfer] at settles ⊢
      obtain ⟨send, sendFound, sends, balance, epoch⟩ := settles
      have notSource : source ≠ changed := fun isChanged => received (isChanged ▸ transfer)
      refine ⟨send, (same _ notSource).trans sendFound, sends, ?_, epoch⟩
      rw [same.sentAmount_eq (loose.previous_ne sendFound), balance]

theorem Reflects.elsewhere (reflects : Reflects left stored)
    (previous : stored.block.previous ≠ changed) : Reflects right stored := by
  unfold Reflects at reflects ⊢
  rwa [same.balanceBefore_eq previous]

/-- What justifies a block that does not depend on the changed one is not changed. -/
theorem Justified.elsewhere (justified : Justified left stored)
    (loose : Loose genesis left changed) (previous : stored.block.previous ≠ changed)
    (received : stored.transfer ≠ .receives changed) : Justified right stored where
  first := justified.first
  follows later := by
    rw [same _ previous]
    exact justified.follows later
  settles := justified.settles.elsewhere same loose previous received
  reflects := justified.reflects.elsewhere same previous
  legacy := justified.legacy
  upgrades isEpoch := by
    rw [same.epochBefore_eq previous]
    exact justified.upgrades isEpoch
  stays notEpoch := by
    rw [same.epochBefore_eq previous]
    exact justified.stays notEpoch

end Frame

end BlockTable

end AccountChains
