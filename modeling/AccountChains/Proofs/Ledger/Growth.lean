import AccountChains.Proofs.Ledger.Reachable
import AccountChains.Proofs.Ledger.Transport

/-!
Contract: ledgers that only grow.

An offer is a block with the hint and the time that come with it. It makes
progress exactly if the block suits what it builds on and its place is free; then
the block is added with its sideband, and everything that was there stays.

Owns: offers, growing by one of them and by a list of them. Does not own: what
becomes of offers that make no progress.
-/

namespace AccountChains

open BlockTable Tables

namespace Ledger

/-- A block that is offered at some time, with what is known about its signature. -/
structure Offer where
  now : Timestamp
  hint : Verification
  block : Block

/-- The hash of an offered block. -/
def Offer.hash (offer : Offer) : BlockHash := offer.block.hash

/-- An offer makes progress. -/
def Grows (constants : LedgerConstants) (tables : Tables) (offer : Offer) (next : Tables) : Prop :=
  ∃ receipt, (process constants offer.now offer.hint offer.block).run tables = (.ok receipt, next) ∧
    receipt.verdict = .progress

/-- Offers make progress one after another. -/
inductive Progresses (constants : LedgerConstants) : Tables → List Offer → Tables → Prop where
  | done (tables : Tables) : Progresses constants tables [] tables
  | next {tables middle final : Tables} {offer : Offer} {offers : List Offer}
      (named : offer.hash ≠ .zero) (grows : Grows constants tables offer middle)
      (rest : Progresses constants middle offers final) :
      Progresses constants tables (offer :: offers) final

theorem Entry.progresses (entry : Entry) : entry.receipt.verdict = .progress := by
  cases entry <;> rfl

section Growing

variable {constants : LedgerConstants} {tables next : Tables} {offer : Offer} {block : Block}
  {hint : Verification} {sideband : Sideband}
  (coherent : tables.Coherent constants) (sound : constants.Sound)

include coherent sound

theorem Suits.admissible (suits : Suits constants hint tables.blocks ⟨block, sideband⟩)
    (vacant : Vacant constants.genesis.hash tables.blocks ⟨block, sideband⟩)
    (named : block.hash ≠ .zero) : tables.Admissible ⟨block, sideband⟩ := by
  obtain ⟨entry, judged, room, isSideband⟩ := takes_of_suits coherent sound suits vacant
  rw [← isSideband]
  exact (accepted_of_judge judged).admissible coherent sound room _ named

/-- A block that suits the ledger, in a free place, makes progress at any time. -/
theorem Suits.grows (suits : Suits constants hint tables.blocks ⟨block, sideband⟩)
    (vacant : Vacant constants.genesis.hash tables.blocks ⟨block, sideband⟩)
    (named : block.hash ≠ .zero) (now : Timestamp) :
    Grows constants tables ⟨now, hint, block⟩
      (tables.append ⟨block, { sideband with timestamp := now }⟩) := by
  have retimed := suits_agrees coherent coherent sound
    (Within.agrees (Within.refl _) (Within.refl _))
    (StoredBlock.Alike.retimed block sideband now).symm
    suits.justified.previous_found suits (fun _ receives => suits.justified.source_found receives)
  have free : Vacant constants.genesis.hash tables.blocks
      ⟨block, { sideband with timestamp := now }⟩ := ⟨vacant.fresh, vacant.slot, vacant.source⟩
  obtain ⟨entry, judged, room, isSideband⟩ := takes_of_suits coherent sound retimed free
  refine ⟨entry.receipt, ?_, entry.progresses⟩
  simp only at isSideband
  rw [run_process, judged]
  simp only
  rw [Step.run_bind, run_commit coherent named now (accepted_of_judge judged) room, isSideband]
  rfl

omit sound in
/-- A block that makes progress was accepted, as an entry with a count in range that says what the
receipt says; it is added with the sideband of the entry. -/
theorem entry_of_progress {now : Timestamp} {receipt : Receipt} (named : block.hash ≠ .zero)
    (returned : (process constants now hint block).run tables = (.ok receipt, next))
    (progresses : receipt.verdict = .progress) :
    ∃ entry, judge constants hint block tables = .ok (.accepted entry) ∧ entry.HasRoom ∧
      receipt = entry.receipt ∧ next = tables.append ⟨block, entry.sideband now⟩ := by
  rw [run_process] at returned
  cases judged : judge constants hint block tables with
  | error fault => simp [judged] at returned
  | ok judgement =>
      cases judgement with
      | refused refusal =>
          simp only [judged, Prod.mk.injEq, Except.ok.injEq] at returned
          obtain ⟨rfl, -⟩ := returned
          exact absurd progresses (declines_judge _ judged)
      | accepted entry =>
          have accepted := accepted_of_judge judged
          rw [judged] at returned
          simp only at returned
          rw [Step.run_bind] at returned
          by_cases room : entry.HasRoom
          · rw [run_commit coherent named now accepted room] at returned
            obtain ⟨isReceipt, isNext⟩ := Prod.mk.inj returned
            exact ⟨entry, rfl, room, (Except.ok.inj isReceipt).symm, isNext.symm⟩
          · have overflow := run_commit_overflow coherent now accepted room
            cases committed : (entry.commit block now).run tables with
            | mk answer written =>
                rw [committed] at overflow
                simp only at overflow
                simp [committed, overflow] at returned

/-- An offer that makes progress adds its block, which suits the ledger, in a free place. -/
theorem Grows.suits (grows : Grows constants tables offer next) (named : offer.hash ≠ .zero) :
    ∃ sideband, sideband.timestamp = offer.now ∧
      Suits constants offer.hint tables.blocks ⟨offer.block, sideband⟩ ∧
      Vacant constants.genesis.hash tables.blocks ⟨offer.block, sideband⟩ ∧
      next = tables.append ⟨offer.block, sideband⟩ := by
  obtain ⟨receipt, returned, progresses⟩ := grows
  obtain ⟨entry, judged, room, -, isNext⟩ := entry_of_progress coherent named returned progresses
  obtain ⟨suits, vacant⟩ := suits_of_judge coherent sound judged room offer.now named
  have timed : (entry.sideband offer.now).timestamp = offer.now := by
    cases accepted_of_judge judged <;> rfl
  exact ⟨_, timed, suits, vacant, isNext⟩

theorem Grows.coherent_next (grows : Grows constants tables offer next)
    (named : offer.hash ≠ .zero) : next.Coherent constants := by
  obtain ⟨sideband, -, suits, vacant, rfl⟩ := grows.suits coherent sound named
  exact coherent.append sound (suits.admissible coherent sound vacant named)

theorem Grows.found_next (grows : Grows constants tables offer next) (named : offer.hash ≠ .zero) :
    ∃ sideband, next.blocks.get? offer.hash = some ⟨offer.block, sideband⟩ := by
  obtain ⟨sideband, -, -, -, rfl⟩ := grows.suits coherent sound named
  exact ⟨sideband, found_append.mpr (.inl ⟨rfl, rfl⟩)⟩

theorem Grows.ne_genesis (grows : Grows constants tables offer next) (named : offer.hash ≠ .zero) :
    offer.hash ≠ constants.genesis.hash := by
  obtain ⟨sideband, -, suits, vacant, -⟩ := grows.suits coherent sound named
  exact coherent.fresh_ne_genesis (suits.admissible coherent sound vacant named)

end Growing

namespace Progresses

variable {constants : LedgerConstants} {tables middle final : Tables} {offers others : List Offer}
  {offer : Offer} {hash : BlockHash} {stored : StoredBlock}

theorem head (progresses : Progresses constants tables (offer :: offers) final) :
    offer.hash ≠ .zero ∧ ∃ middle, Grows constants tables offer middle := by
  cases progresses with
  | next named grows => exact ⟨named, _, grows⟩

theorem append (first : Progresses constants tables offers middle)
    (second : Progresses constants middle others final) :
    Progresses constants tables (offers ++ others) final := by
  induction first with
  | done => exact second
  | next named grows _ inductionHypothesis =>
      exact .next named grows (inductionHypothesis second)

variable (progresses : Progresses constants tables offers final)
  (coherent : tables.Coherent constants) (sound : constants.Sound)

include progresses coherent sound

theorem coherent_final : final.Coherent constants := by
  induction progresses with
  | done => exact coherent
  | next named grows _ inductionHypothesis =>
      exact inductionHypothesis (grows.coherent_next coherent sound named)

/-- What is there stays as it is. -/
theorem found (here : tables.blocks.get? hash = some stored) :
    final.blocks.get? hash = some stored := by
  induction progresses with
  | done => exact here
  | next named grows _ inductionHypothesis =>
      obtain ⟨sideband, -, -, vacant, rfl⟩ := grows.suits coherent sound named
      exact inductionHypothesis (grows.coherent_next coherent sound named)
        (found_append_of_found vacant.fresh here)

/-- Exactly the offered blocks are added. -/
theorem stored_iff : (∃ stored, final.blocks.get? hash = some stored) ↔
    (∃ stored, tables.blocks.get? hash = some stored) ∨ ∃ offer ∈ offers, offer.hash = hash := by
  induction progresses with
  | done => simp
  | @next tables middle final offer offers named grows _ inductionHypothesis =>
      obtain ⟨sideband, -, -, vacant, rfl⟩ := grows.suits coherent sound named
      rw [inductionHypothesis (grows.coherent_next coherent sound named)]
      simp only [found_append, List.mem_cons, exists_eq_or_imp]
      constructor
      · rintro (⟨stored, ⟨isNew, -⟩ | ⟨-, here⟩⟩ | later)
        · exact .inr (.inl isNew.symm)
        · exact .inl ⟨stored, here⟩
        · exact .inr (.inr later)
      · rintro (⟨stored, here⟩ | isNew | later)
        · exact .inl ⟨stored, found_append.mp (found_append_of_found vacant.fresh here)⟩
        · exact .inl ⟨_, .inl ⟨isNew.symm, rfl⟩⟩
        · exact .inr later

/-- None of the offered blocks is there before. -/
theorem fresh (offered : offer ∈ offers) : tables.blocks.get? offer.hash = none := by
  induction progresses with
  | done => simp at offered
  | @next tables middle final head offers named grows rest inductionHypothesis =>
      have coherentNext := grows.coherent_next coherent sound named
      obtain ⟨sideband, -, -, vacant, rfl⟩ := grows.suits coherent sound named
      rcases List.mem_cons.mp offered with rfl | later
      · exact vacant.fresh
      · refine Option.eq_none_iff_forall_ne_some.mpr fun stored found => ?_
        have gone := inductionHypothesis coherentNext later
        simp [found_append_of_found vacant.fresh found] at gone

theorem within : Within tables.blocks final.blocks :=
  fun here => ⟨_, progresses.found coherent sound here, .refl _⟩

theorem nodup : (offers.map Offer.hash).Nodup := by
  induction progresses with
  | done => exact List.nodup_nil
  | @next tables middle final offer offers named grows rest inductionHypothesis =>
      have coherentNext := grows.coherent_next coherent sound named
      rw [List.map_cons]
      refine List.nodup_cons.mpr ⟨fun again => ?_, inductionHypothesis coherentNext⟩
      obtain ⟨other, member, same⟩ := List.mem_map.mp again
      have gone := rest.fresh coherentNext sound member
      obtain ⟨stored, found⟩ := grows.found_next coherent sound named
      simp [same, found] at gone

/-- At the end each offered block is stored and suits the ledger. -/
theorem suits (offered : offer ∈ offers) : ∃ sideband,
    final.blocks.get? offer.hash = some ⟨offer.block, sideband⟩ ∧
      Suits constants offer.hint final.blocks ⟨offer.block, sideband⟩ := by
  induction progresses with
  | done => simp at offered
  | @next tables middle final head offers named grows rest inductionHypothesis =>
      have coherentNext := grows.coherent_next coherent sound named
      rcases List.mem_cons.mp offered with rfl | later
      · have whole : Progresses constants tables (offer :: offers) final := .next named grows rest
        obtain ⟨sideband, -, suits, -, rfl⟩ := grows.suits coherent sound named
        refine ⟨sideband, rest.found coherentNext sound (found_append.mpr (.inl ⟨rfl, rfl⟩)), ?_⟩
        refine suits_agrees coherent (rest.coherent_final coherentNext sound) sound
          (Within.agrees (whole.within coherent sound) (Within.refl _)) (.refl _) ?_ suits ?_
        · intro isLater
          obtain ⟨before, found⟩ := suits.justified.previous_found isLater
          exact ⟨before, whole.found coherent sound found⟩
        · intro source receives
          obtain ⟨send, found⟩ := suits.justified.source_found receives
          exact ⟨send, whole.found coherent sound found⟩
      · exact inductionHypothesis coherentNext later

theorem outside : final.parked = tables.parked ∧ final.version = tables.version := by
  induction progresses with
  | done => exact ⟨rfl, rfl⟩
  | next named grows _ inductionHypothesis =>
      have kept := inductionHypothesis (grows.coherent_next coherent sound named)
      obtain ⟨sideband, -, -, -, rfl⟩ := grows.suits coherent sound named
      exact kept

end Progresses

end Ledger

end AccountChains
