import AccountChains.Proofs.Ledger.Growth

/-!
Contract: undone blocks leave no trace.

A run of a ledger offers blocks, undoes some of them, and may offer them again.
What is stored at its end was taken in by the last offers of these blocks that
made progress. A ledger that gets only these offers, in their order, takes every
one of them in and ends with the same tables.

Removing a block that nothing builds on, the offers after it are judged as before:
none of them needed it, and its place was not theirs.

Owns: the history of a run, the offers that survive it, and their replay. Does not
own: growing by an offer.
-/

namespace AccountChains

open BlockTable Tables

namespace Ledger

/-- The offers of a call that made progress: at most one. -/
def progressOf (constants : LedgerConstants) (tables : Tables) : Call → List Offer
  | .rollback _ => []
  | .process now hint block =>
    match (process constants now hint block).run tables with
    | (.ok receipt, _) => if receipt.verdict = .progress then [⟨now, hint, block⟩] else []
    | (.error _, _) => []

/-- A ledger gets from one state to another, with the offers on the way that made progress. -/
inductive Evolves (constants : LedgerConstants) (first : Tables) : List Offer → Tables → Prop where
  | start : Evolves constants first [] first
  | after {offers : List Offer} {tables next : Tables} {call : Call}
      (evolves : Evolves constants first offers tables)
      (leads : Leads constants tables call next) :
      Evolves constants first (offers ++ progressOf constants tables call) next

/-- The last offer of each stored block, in the order of the offers. -/
def survivors (blocks : BlockTable) : List Offer → List Offer
  | [] => []
  | offer :: later =>
    if blocks.contains offer.hash ∧ ∀ other ∈ later, other.hash ≠ offer.hash then
      offer :: survivors blocks later
    else survivors blocks later

/-! ## Survivors -/

section Survivors

variable {blocks changed : BlockTable} {offers : List Offer} {hash : BlockHash}

/-- Every stored block that was offered has its last offer among the survivors. -/
theorem mem_survivors_iff : (∃ offer ∈ survivors blocks offers, offer.hash = hash) ↔
    blocks.contains hash ∧ ∃ offer ∈ offers, offer.hash = hash := by
  induction offers with
  | nil => simp [survivors]
  | cons offer later inductionHypothesis =>
      unfold survivors
      split
      · next survives =>
          simp only [List.mem_cons, exists_eq_or_imp, inductionHypothesis]
          constructor
          · rintro (rfl | ⟨contained, further⟩)
            · exact ⟨survives.1, .inl rfl⟩
            · exact ⟨contained, .inr further⟩
          · rintro ⟨contained, isOffer | further⟩
            · exact .inl isOffer
            · exact .inr ⟨contained, further⟩
      · next superseded =>
          rw [inductionHypothesis]
          refine and_congr_right fun contained => ?_
          simp only [List.mem_cons, exists_eq_or_imp, iff_or_self]
          -- A stored block that is offered again later has a later offer.
          rintro rfl
          by_contra last
          push Not at last
          exact superseded ⟨contained, last⟩

theorem survivors_nodup : ((survivors blocks offers).map Offer.hash).Nodup := by
  induction offers with
  | nil => exact List.nodup_nil
  | cons offer later inductionHypothesis =>
      unfold survivors
      split
      · next survives =>
          refine List.nodup_cons.mpr ⟨fun again => ?_, inductionHypothesis⟩
          obtain ⟨other, member, same⟩ := List.mem_map.mp again
          obtain ⟨-, further, isLater, sameHash⟩ := mem_survivors_iff.mp ⟨other, member, same⟩
          exact survives.2 further isLater sameHash
      · exact inductionHypothesis

/-- A new block survives with its offer, and the other survivors stay. -/
theorem survivors_append {offer : Offer} (fresh : blocks.contains offer.hash = false)
    (added : ∀ hash, changed.contains hash ↔ hash = offer.hash ∨ blocks.contains hash) :
    survivors changed (offers ++ [offer]) = survivors blocks offers ++ [offer] := by
  induction offers with
  | nil => simp [survivors, added]
  | cons head later inductionHypothesis =>
      rw [List.cons_append, survivors, survivors, inductionHypothesis]
      by_cases same : head.hash = offer.hash
      · rw [if_neg, if_neg]
        · simp [same, fresh]
        · exact fun survives =>
            survives.2 offer (List.mem_append_right later List.mem_cons_self) same.symm
      · have survives : (changed.contains head.hash ∧
              ∀ other ∈ later ++ [offer], other.hash ≠ head.hash) ↔
            blocks.contains head.hash ∧ ∀ other ∈ later, other.hash ≠ head.hash := by
          simp only [added, same, false_or, List.forall_mem_append, List.forall_mem_singleton,
            ne_eq, Ne.symm same, not_false_eq_true, and_true]
        by_cases holds : blocks.contains head.hash ∧ ∀ other ∈ later, other.hash ≠ head.hash
        · rw [if_pos holds, if_pos (survives.mpr holds), List.cons_append]
        · rw [if_neg holds, if_neg (mt survives.mp holds)]

/-- Without a block, its offer does not survive, and the other survivors stay. -/
theorem survivors_erase {removed : BlockHash}
    (erased : ∀ hash, changed.contains hash ↔ hash ≠ removed ∧ blocks.contains hash) :
    survivors changed offers
      = (survivors blocks offers).filter fun offer => offer.hash ≠ removed := by
  induction offers with
  | nil => rfl
  | cons head later inductionHypothesis =>
      simp only [survivors, inductionHypothesis, erased]
      by_cases isRemoved : head.hash = removed
      · rw [if_neg (fun survives => survives.1.1 isRemoved)]
        split <;> simp [isRemoved]
      · simp only [ne_eq, isRemoved, not_false_eq_true, true_and]
        split <;> simp [isRemoved]

end Survivors

/-! ## Growing without a block -/

/-- The second ledger lacks one block of the first one. -/
structure Lacks (removed : BlockHash) (whole part : Tables) : Prop where
  found_iff : ∀ {hash stored}, part.blocks.get? hash = some stored ↔
    hash ≠ removed ∧ whole.blocks.get? hash = some stored
  outside : part.parked = whole.parked ∧ part.version = whole.version

section Lacking

variable {constants : LedgerConstants} {whole part next final : Tables} {removed : BlockHash}
  {offer : Offer} {offers : List Offer} {stored : StoredBlock}

theorem lacks_append (fresh : whole.blocks.get? stored.hash = none) :
    Lacks stored.hash (whole.append stored) whole where
  found_iff := by
    intro hash block
    rw [found_append]
    constructor
    · intro found
      have different : hash ≠ stored.hash := by
        rintro rfl
        simp [fresh] at found
      exact ⟨different, .inr ⟨different, found⟩⟩
    · rintro ⟨different, ⟨same, -⟩ | ⟨-, found⟩⟩
      · exact absurd same different
      · exact found
  outside := ⟨rfl, rfl⟩

theorem Lacks.append (lacks : Lacks removed whole part) (different : stored.hash ≠ removed) :
    Lacks removed (whole.append stored) (part.append stored) where
  found_iff := by
    intro hash block
    rw [found_append, found_append, lacks.found_iff]
    constructor
    · rintro (⟨rfl, rfl⟩ | ⟨notNew, notRemoved, found⟩)
      · exact ⟨different, .inl ⟨rfl, rfl⟩⟩
      · exact ⟨notRemoved, .inr ⟨notNew, found⟩⟩
    · rintro ⟨notRemoved, ⟨rfl, rfl⟩ | ⟨notNew, found⟩⟩
      · exact .inl ⟨rfl, rfl⟩
      · exact .inr ⟨notNew, notRemoved, found⟩
  outside := lacks.outside

variable (wholeCoherent : whole.Coherent constants) (partCoherent : part.Coherent constants)
  (sound : constants.Sound) (lacks : Lacks removed whole part)

include wholeCoherent partCoherent sound lacks

/-- An offer that does not build on a block makes progress without it. -/
theorem Lacks.grows (grows : Grows constants whole offer next) (named : offer.hash ≠ .zero)
    (here : ∃ block, whole.blocks.get? removed = some block)
    (independent : ¬ DependsOn constants.genesis.hash next.blocks offer.hash removed) :
    ∃ partNext, Grows constants part offer partNext ∧ Lacks removed next partNext := by
  obtain ⟨sideband, timed, suits, vacant, rfl⟩ := grows.suits wholeCoherent sound named
  have admissible := suits.admissible wholeCoherent sound vacant named
  have different : offer.hash ≠ removed := by
    rintro rfl
    obtain ⟨block, found⟩ := here
    simp [show whole.blocks.get? offer.hash = none from vacant.fresh] at found
  have newFound : (whole.append ⟨offer.block, sideband⟩).blocks.get? offer.hash
      = some ⟨offer.block, sideband⟩ := found_append.mpr (.inl ⟨rfl, rfl⟩)
  -- What the block builds on is there without the removed block.
  have previous (later : offer.block.previous ≠ .zero) :
      ∃ before, part.blocks.get? offer.block.previous = some before := by
    obtain ⟨before, found⟩ := suits.justified.previous_found later
    refine ⟨before, lacks.found_iff.mpr ⟨?_, found⟩⟩
    exact fun isRemoved => independent ⟨_, newFound, .inl isRemoved⟩
  have source (source : BlockHash)
      (receives : StoredBlock.transfer ⟨offer.block, sideband⟩ = .receives source) :
      ∃ send, part.blocks.get? source = some send := by
    obtain ⟨send, found⟩ := suits.justified.source_found receives
    refine ⟨send, lacks.found_iff.mpr ⟨?_, found⟩⟩
    rintro rfl
    exact independent
      ⟨_, newFound, .inr ⟨wholeCoherent.fresh_ne_genesis admissible, receives⟩⟩
  have agrees : Agrees whole.blocks part.blocks := by
    intro hash left right leftFound rightFound
    obtain rfl := Option.some.inj (leftFound.symm.trans (lacks.found_iff.mp rightFound).2)
    exact .refl _
  have alsoSuits := suits_agrees wholeCoherent partCoherent sound agrees (.refl _) previous suits
    source
  have alsoVacant : Vacant constants.genesis.hash part.blocks ⟨offer.block, sideband⟩ := {
    fresh := by
      refine Option.eq_none_iff_forall_ne_some.mpr fun block found => ?_
      have wholeFound := (lacks.found_iff.mp found).2
      simp [show whole.blocks.get? _ = none from vacant.fresh] at wholeFound
    slot := fun found => vacant.slot (lacks.found_iff.mp found).2
    source := fun receives hash block found =>
      vacant.source receives hash block (lacks.found_iff.mp found).2 }
  have partGrows := alsoSuits.grows partCoherent sound alsoVacant named offer.now
  rw [show { sideband with timestamp := offer.now } = sideband by rw [← timed]] at partGrows
  exact ⟨_, partGrows, lacks.append different⟩

/-- Offers that do not build on a block make progress without it. -/
theorem Lacks.progresses (progresses : Progresses constants whole offers final)
    (here : ∃ block, whole.blocks.get? removed = some block)
    (loose : Loose constants.genesis.hash final.blocks removed) :
    ∃ partFinal, Progresses constants part offers partFinal ∧ Lacks removed final partFinal := by
  induction progresses generalizing part with
  | done => exact ⟨part, .done part, lacks⟩
  | @next whole middle final offer offers named grows rest inductionHypothesis =>
      have middleCoherent := grows.coherent_next wholeCoherent sound named
      have kept {hash : BlockHash} {block : StoredBlock}
          (found : middle.blocks.get? hash = some block) :
          final.blocks.get? hash = some block := rest.found middleCoherent sound found
      have independent : ¬ DependsOn constants.genesis.hash middle.blocks offer.hash removed := by
        rintro ⟨block, found, builds⟩
        exact loose _ ⟨block, kept found, builds⟩
      obtain ⟨partNext, partGrows, alsoLacks⟩ :=
        lacks.grows wholeCoherent partCoherent sound grows named here independent
      have stillHere : ∃ block, middle.blocks.get? removed = some block := by
        obtain ⟨block, found⟩ := here
        exact ⟨block, (Progresses.next named grows (.done middle)).found wholeCoherent sound found⟩
      obtain ⟨partFinal, partRest, finalLacks⟩ := inductionHypothesis middleCoherent
        (partGrows.coherent_next partCoherent sound named) alsoLacks stillHere loose
      exact ⟨partFinal, .next named partGrows partRest, finalLacks⟩

end Lacking

/-! ## The replay -/

section Replay

variable {constants : LedgerConstants} {first tables final next : Tables} {offers : List Offer}
  {removed : BlockHash} {undone : List BlockHash}

/-- Offers lead to a ledger, one for each block that is not there at first. -/
structure Replays (constants : LedgerConstants) (first tables : Tables) (offers : List Offer) :
    Prop where
  progresses : Progresses constants first offers tables
  distinct : (offers.map Offer.hash).Nodup
  complete : ∀ hash, (∃ offer ∈ offers, offer.hash = hash) ↔
    hash ≠ constants.genesis.hash ∧ tables.blocks.contains hash

variable (coherent : first.Coherent constants) (sound : constants.Sound)

include coherent sound

/-- A block that nothing builds on can be left out. -/
theorem Progresses.without (progresses : Progresses constants first offers final)
    (absent : first.blocks.get? removed = none)
    (stored : ∃ block, final.blocks.get? removed = some block)
    (loose : Loose constants.genesis.hash final.blocks removed) :
    ∃ part, Progresses constants first (offers.filter fun offer => offer.hash ≠ removed) part ∧
      Lacks removed final part := by
  induction progresses with
  | done =>
      obtain ⟨block, found⟩ := stored
      simp [absent] at found
  | @next first middle final offer offers named grows rest inductionHypothesis =>
      have middleCoherent := grows.coherent_next coherent sound named
      obtain ⟨sideband, -, suits, vacant, rfl⟩ := grows.suits coherent sound named
      by_cases isRemoved : offer.hash = removed
      · subst isRemoved
        have lacks : Lacks offer.hash (first.append ⟨offer.block, sideband⟩) first :=
          lacks_append vacant.fresh
        obtain ⟨taken, here⟩ := grows.found_next coherent sound named
        -- It is there from now on, so no later offer is for it.
        have others : ∀ other ∈ offers, other.hash ≠ offer.hash := by
          intro other member same
          have gone := rest.fresh middleCoherent sound member
          simp [same, here] at gone
        have kept : (offer :: offers).filter (fun other => other.hash ≠ offer.hash) = offers := by
          simpa using others
        rw [kept]
        exact lacks.progresses middleCoherent coherent sound rest ⟨_, here⟩ loose
      · have stillAbsent :
            (first.append ⟨offer.block, sideband⟩).blocks.get? removed = none := by
          refine Option.eq_none_iff_forall_ne_some.mpr fun block found => ?_
          rcases found_append.mp found with ⟨same, -⟩ | ⟨-, old⟩
          · exact isRemoved same.symm
          · simp [absent] at old
        obtain ⟨part, partRest, lacks⟩ :=
          inductionHypothesis middleCoherent stillAbsent stored loose
        refine ⟨part, ?_, lacks⟩
        rw [List.filter_cons_of_pos (by simpa using isRemoved)]
        exact .next named grows partRest

/-- When heads are undone, what survives still leads there. -/
theorem Progresses.removes
    (progresses : Progresses constants first (survivors tables.blocks offers) tables)
    (removes : Removes constants tables undone final)
    (absent : ∀ hash, hash ≠ constants.genesis.hash → first.blocks.get? hash = none) :
    Progresses constants first (survivors final.blocks offers) final := by
  induction removes with
  | done => exact progresses
  | @next tables final record head before undone removable precedes rest inductionHypothesis =>
      have whole := progresses.coherent_final coherent sound
      obtain ⟨part, partProgresses, lacks⟩ := progresses.without coherent sound
        (absent _ removable.notGenesis) ⟨_, removable.found⟩ (whole.removable_loose removable)
      have same : part = tables.retract record head before := by
        refine (partProgresses.coherent_final coherent sound).eq_of_blocks
          (whole.retract sound removable precedes) ?_ lacks.outside.1 lacks.outside.2
        ext1 hash
        ext1 block
        rw [lacks.found_iff, found_retract]
      subst same
      refine inductionHypothesis ?_
      rwa [survivors_erase]
      intro hash
      simp only [Table.contains_eq_true_iff, found_retract, exists_and_left]

theorem Evolves.coherent_final (evolves : Evolves constants first offers tables) :
    tables.Coherent constants := by
  induction evolves with
  | start => exact coherent
  | after _ leads inductionHypothesis => exact leads.coherent sound inductionHypothesis

omit coherent sound in
theorem progressOf_of_grows {offer : Offer} (grows : Grows constants tables offer next) :
    progressOf constants tables (.process offer.now offer.hint offer.block) = [offer] := by
  obtain ⟨receipt, returned, progresses⟩ := grows
  simp only [progressOf, returned, if_pos progresses]

omit coherent sound in
theorem Evolves.grow {offer : Offer} (evolves : Evolves constants first offers tables)
    (grows : Grows constants tables offer next) (named : offer.hash ≠ .zero) :
    Evolves constants first (offers ++ [offer]) next := by
  obtain ⟨receipt, returned, -⟩ := id grows
  rw [← progressOf_of_grows grows]
  exact .after evolves (.answered named returned)

theorem Evolves.progresses (evolves : Evolves constants first offers tables)
    (absent : ∀ hash, hash ≠ constants.genesis.hash → first.blocks.get? hash = none) :
    Progresses constants first (survivors tables.blocks offers) tables := by
  induction evolves with
  | start => exact .done first
  | @after offers tables next call evolves leads inductionHypothesis =>
      have tablesCoherent := evolves.coherent_final coherent sound
      cases leads with
      | answered named returned =>
          cases processes_of_run tablesCoherent named returned with
          | declined isRefusal =>
              simpa only [progressOf, returned, if_neg isRefusal, List.append_nil]
          | @appended entry accepted room =>
              have grows : Grows constants tables ⟨_, _, _⟩ _ := ⟨_, returned, entry.progresses⟩
              obtain ⟨sideband, -, -, vacant, isNext⟩ := grows.suits tablesCoherent sound named
              rw [isNext] at grows ⊢
              rw [progressOf_of_grows grows, survivors_append vacant.missing]
              · exact inductionHypothesis.append (.next named grows (.done _))
              · exact fun hash => contains_append
      | failed named returned =>
          cases processes_of_run tablesCoherent named returned with
          | failed => simpa only [progressOf, returned, List.append_nil]
      | undone found notGenesis =>
          simp only [progressOf, List.append_nil]
          exact inductionHypothesis.removes coherent sound
            (rollback_unwinds tablesCoherent sound found notGenesis).removes absent

end Replay

variable {constants : LedgerConstants} {tables : Tables} {offers : List Offer} {now : Timestamp}
  {parked : Table ParkedKey ParkedBlock} {version : Option UInt32}

theorem Reachable.evolves (reachable : Reachable constants tables) :
    ∃ now parked version offers,
      Evolves constants (Ledger.started constants now parked version) offers tables := by
  induction reachable with
  | started now parked version => exact ⟨now, parked, version, [], .start⟩
  | after _ leads inductionHypothesis =>
      obtain ⟨now, parked, version, offers, evolves⟩ := inductionHypothesis
      exact ⟨now, parked, version, _, evolves.after leads⟩

theorem absent_started {hash : BlockHash} (notGenesis : hash ≠ constants.genesis.hash) :
    (started constants now parked version).blocks.get? hash = none :=
  Option.eq_none_iff_forall_ne_some.mpr fun _ found =>
    notGenesis ((found_started now parked version).mp found).1

/-- Every stored block but the genesis block suits what is stored with it now. -/
theorem Reachable.suits (reachable : Reachable constants tables) (sound : constants.Sound)
    {hash : BlockHash} {stored : StoredBlock} (found : tables.blocks.get? hash = some stored)
    (notGenesis : hash ≠ constants.genesis.hash) :
    ∃ hint, Suits constants hint tables.blocks stored := by
  obtain ⟨now, parked, version, offers, evolves⟩ := reachable.evolves
  have coherent := coherent_started sound now parked version
  have progresses := evolves.progresses coherent sound fun _ => absent_started
  rcases (progresses.stored_iff coherent sound).mp ⟨stored, found⟩ with
    ⟨_, before⟩ | ⟨offer, survives, rfl⟩
  · exact nomatch (absent_started notGenesis).symm.trans before
  · obtain ⟨sideband, offered, suits⟩ := progresses.suits coherent sound survives
    obtain rfl := Option.some.inj (offered.symm.trans found)
    exact ⟨offer.hint, suits⟩

/-- The surviving offers of a run, on a new ledger, lead to where the run ended. -/
theorem Evolves.replays
    (evolves : Evolves constants (started constants now parked version) offers tables)
    (sound : constants.Sound) :
    Replays constants (started constants now parked version) tables
      (survivors tables.blocks offers) := by
  have coherent := coherent_started sound now parked version
  have absent (hash : BlockHash) (notGenesis : hash ≠ constants.genesis.hash) :
      (started constants now parked version).blocks.get? hash = none := by
    refine Option.eq_none_iff_forall_ne_some.mpr fun stored found => ?_
    exact notGenesis ((found_started now parked version).mp found).1
  have progresses := evolves.progresses coherent sound absent
  refine ⟨progresses, survivors_nodup, fun hash => ?_⟩
  rw [Table.contains_eq_true_iff, progresses.stored_iff coherent sound]
  constructor
  · rintro ⟨offer, survives, rfl⟩
    refine ⟨?_, .inr ⟨offer, survives, rfl⟩⟩
    intro isGenesis
    have fresh := progresses.fresh coherent sound survives
    rw [isGenesis, genesis_started] at fresh
    simp at fresh
  · rintro ⟨notGenesis, ⟨stored, found⟩ | offered⟩
    · simp [absent hash notGenesis] at found
    · exact offered

/-- The send is made and received, and the receiving is undone. -/
theorem devUndone_evolves :
    Evolves .dev (started .dev .zero .empty none)
      [⟨.zero, .valid, devSend⟩, ⟨.zero, .valid, devOpening⟩]
      (rollback devOpening.hash devReceived).store := by
  have receives : Grows .dev devSent ⟨.zero, .valid, devOpening⟩ devReceived :=
    ⟨_, devOpening_progresses, rfl⟩
  have sends : Grows .dev (started .dev .zero .empty none) ⟨.zero, .valid, devSend⟩ devSent :=
    ⟨_, devSend_progresses, rfl⟩
  have sent : Evolves .dev (started .dev .zero .empty none) [⟨.zero, .valid, devSend⟩] devSent :=
    .grow .start sends dev_named.1
  have received := sent.grow receives dev_named.2
  have coherent := reachable_devSent.coherent dev_sound
  obtain ⟨sideband, stored⟩ := receives.found_next coherent dev_sound dev_named.2
  exact received.after (.undone stored (receives.ne_genesis coherent dev_sound dev_named.2))

theorem devUndone_replays :
    Replays .dev (started .dev .zero .empty none) (rollback devOpening.hash devReceived).store
      (survivors (rollback devOpening.hash devReceived).store.blocks
        [⟨.zero, .valid, devSend⟩, ⟨.zero, .valid, devOpening⟩]) :=
  Evolves.replays devUndone_evolves dev_sound

end Ledger

end AccountChains
