import AccountChains.Proofs.Intake.Stages

/-!
Contract: what becomes of each block that is queued.

A block that is queued gets a ticket, and the tickets are numbered in the order in
which the blocks were accepted. A journal keeps the tickets beside a run: it looks at
where the queued blocks are before and after each step, and notes which were taken out
to be checked, which came back, which were taken in hand and which were handed over to
the ledger. It has no say in what the intake does.

Each ticket is in one place at a time. It leaves the queues only by being handed over or
by being dropped after its check, and tickets that took the same way, through the check
or past it, are never overtaken by one another.

Owns: the journal of a run, and that it agrees with the queues and keeps every ticket
once and in order. Does not own: that the hashes of the queues are exact.
-/

namespace AccountChains

/-- A block as it was queued, with its place among all that were. -/
structure Ticket where
  number : Nat
  item : QueuedBlock
deriving DecidableEq, Repr

/-- The block as it is ready for the ledger: a block that had to be checked comes with what the
check has told. -/
def Ticket.readied (links : EpochLinks) (ticket : Ticket) : QueuedBlock :=
  if ticket.item.needsVerification then ticket.item.settled links else ticket.item

structure Journal where
  /-- All tickets, in the order in which they were given out. -/
  accepted : List Ticket
  unverified : List Ticket
  checking : List Ticket
  ready : List Ticket
  inHand : List Ticket
  /-- Handed over to the ledger, with the block as it was then. -/
  handed : List (Ticket × QueuedBlock)
  /-- Not put back after the check, with the ledger that the block was checked against. -/
  dropped : List (Ticket × Tables)

namespace Journal

def blank : Journal := ⟨[], [], [], [], [], [], []⟩

def nextTicket (journal : Journal) (item : QueuedBlock) : Ticket :=
  ⟨journal.accepted.length, item⟩

/-- Give out the next ticket. -/
def accept (journal : Journal) (item : QueuedBlock) : Journal :=
  let ticket := journal.nextTicket item
  let accepted := journal.accepted ++ [ticket]
  if item.needsVerification then
    { journal with accepted, unverified := journal.unverified ++ [ticket] }
  else { journal with accepted, ready := journal.ready ++ [ticket] }

def drain (count : Nat) (journal : Journal) : Journal :=
  { journal with
    checking := journal.unverified.take count, unverified := journal.unverified.drop count }

def putBack (view : Tables) (isKept : QueuedBlock → Bool) (journal : Journal) : Journal :=
  { journal with
    checking := []
    ready := journal.ready ++ journal.checking.filter fun ticket => isKept ticket.item
    dropped := journal.dropped ++
      (journal.checking.filter fun ticket => !isKept ticket.item).map fun ticket => (ticket, view) }

def take (journal : Journal) : Journal :=
  { journal with inHand := journal.ready.take 1, ready := journal.ready.drop 1 }

def hand (item : QueuedBlock) (journal : Journal) : Journal :=
  { journal with
    handed := journal.handed ++ journal.inHand.map fun ticket => (ticket, item), inHand := [] }

/-- What the queues hold at their ends that was not there before. -/
def newcomers (before after : Stages) : List QueuedBlock :=
  after.ready.drop before.ready.length ++ after.unverified.drop before.unverified.length

/-- Note what has happened in a step. A checked block has been dropped if its hash is no longer
listed. -/
def observe (before after : Stages) (journal : Journal) : Journal :=
  match before.checking, after.checking with
  | some (view, _), none => journal.putBack view fun item => after.hashes.contains item.hash
  | none, some (_, drained) => journal.drain drained.length
  | _, _ =>
    match before.inHand, after.inHand with
    | some item, none => journal.hand item
    | none, some _ => journal.take
    | _, _ => (newcomers before after).foldl accept journal

/-- Keep the journal while threads do their actions. -/
def keep (setup : IntakeSetup) (processor : Processor Tables) (journal : Journal) :
    List Action → Journal :=
  processor.logged (fun before after => observe before.stages after.stages) setup journal

/-- The tickets that have not been dropped, the first ones first. -/
def passing (journal : Journal) : List Ticket :=
  journal.handed.map Prod.fst ++ journal.inHand ++ journal.ready ++ journal.checking
    ++ journal.unverified

/-- Every ticket is in one place, and tickets that take the same way stay in order. -/
structure Orderly (journal : Journal) : Prop where
  numbered : journal.accepted.map Ticket.number = List.range journal.accepted.length
  once : (journal.dropped.map Prod.fst ++ journal.passing).Perm journal.accepted
  inOrder : ∀ isChecked, (journal.passing.filter fun ticket =>
    ticket.item.needsVerification == isChecked).Pairwise fun one other => one.number < other.number
  unchecked : ∀ ticket ∈ journal.checking ++ journal.unverified, ticket.item.needsVerification

/-- The tickets are where their blocks are, and those that are nowhere have a reason for it. -/
structure Follows (links : EpochLinks) (stages : Stages) (journal : Journal) : Prop where
  unverified : journal.unverified.map Ticket.item = stages.unverified
  checking : journal.checking.map Ticket.item = stages.drained
  ready : journal.ready.map (Ticket.readied links) = stages.ready
  inHand : journal.inHand.map (Ticket.readied links) = stages.inHand.toList
  handed : ∀ entry ∈ journal.handed, entry.2 = entry.1.readied links
  dropped : ∀ entry ∈ journal.dropped, entry.1.item.needsVerification ∧
    (entry.2.blocks.contains entry.1.item.hash ∨ entry.1.item.checked links = .invalid)

/-- What has been noted stays noted. -/
structure Extends (journal later : Journal) : Prop where
  accepted : journal.accepted <+: later.accepted
  handed : journal.handed <+: later.handed
  dropped : journal.dropped <+: later.dropped

/-! ## Tickets -/

namespace Orderly

variable {journal next : Journal}

theorem blank : Journal.blank.Orderly where
  numbered := rfl
  once := .nil
  inOrder _ := .nil
  unchecked := by simp [Journal.blank]

/-- Tickets may move on without passing others. -/
theorem of_same (orderly : journal.Orderly) (accepted : next.accepted = journal.accepted)
    (dropped : next.dropped = journal.dropped) (passing : next.passing = journal.passing)
    (unchecked : ∀ ticket ∈ next.checking ++ next.unverified, ticket.item.needsVerification) :
    next.Orderly where
  numbered := by rw [accepted, orderly.numbered]
  once := by rw [accepted, dropped, passing]; exact orderly.once
  inOrder := by rw [passing]; exact orderly.inOrder
  unchecked := unchecked

theorem drain (orderly : journal.Orderly) (idle : journal.checking = []) (count : Nat) :
    (journal.drain count).Orderly := by
  refine orderly.of_same rfl rfl ?_ fun ticket member => ?_
  · simp only [passing, Journal.drain, idle, List.append_assoc, List.nil_append,
      List.take_append_drop]
  · rw [Journal.drain, List.take_append_drop] at member
    exact orderly.unchecked ticket (List.mem_append_right _ member)

theorem take (orderly : journal.Orderly) (free : journal.inHand = []) :
    journal.take.Orderly := by
  refine orderly.of_same rfl rfl ?_ orderly.unchecked
  simp only [passing, Journal.take, free, List.append_nil, List.append_assoc]
  rw [← List.append_assoc (List.take 1 _), List.take_append_drop]

theorem hand (orderly : journal.Orderly) (item : QueuedBlock) : (journal.hand item).Orderly := by
  refine orderly.of_same rfl rfl ?_ orderly.unchecked
  simp only [passing, Journal.hand, List.map_append, List.map_map, List.append_nil]
  exact congrArg (_ ++ · ++ _ ++ _ ++ _) (List.map_id _)

theorem number_lt (orderly : journal.Orderly) {ticket : Ticket}
    (member : ticket ∈ journal.passing) : ticket.number < journal.accepted.length := by
  have isAccepted := orderly.once.subset (List.mem_append_right _ member)
  have numbered := List.mem_map_of_mem (f := Ticket.number) isAccepted
  rw [orderly.numbered] at numbered
  exact List.mem_range.mp numbered

/-- The next ticket is placed behind all others that take its way. -/
theorem exists_place (orderly : journal.Orderly) (item : QueuedBlock) : ∃ front behind,
    journal.passing = front ++ behind ∧
      (journal.accept item).passing = front ++ journal.nextTicket item :: behind ∧
      ∀ other ∈ behind, other.item.needsVerification ≠ item.needsVerification := by
  by_cases needs : item.needsVerification
  · refine ⟨journal.passing, [], (List.append_nil _).symm, ?_, by simp⟩
    simp only [accept, if_pos needs, passing, List.append_assoc]
  · refine ⟨journal.handed.map Prod.fst ++ journal.inHand ++ journal.ready,
      journal.checking ++ journal.unverified, ?_, ?_, fun other member => ?_⟩
    · simp only [passing, List.append_assoc]
    · simp only [accept, if_neg needs, passing, List.append_assoc, List.cons_append,
        List.nil_append]
    · rw [orderly.unchecked other member]
      simpa using needs

theorem accept (orderly : journal.Orderly) (item : QueuedBlock) :
    (journal.accept item).Orderly := by
  let ticket := journal.nextTicket item
  obtain ⟨front, behind, was, is, others⟩ := orderly.exists_place item
  have accepted : (journal.accept item).accepted = journal.accepted ++ [ticket] := by
    unfold Journal.accept
    split <;> rfl
  have dropped : (journal.accept item).dropped = journal.dropped := by
    unfold Journal.accept
    split <;> rfl
  refine ⟨?_, ?_, fun isChecked => ?_, ?_⟩
  · rw [accepted, List.map_append, orderly.numbered, List.length_append, List.length_singleton,
      List.range_succ]
    rfl
  · have once := orderly.once
    rw [was] at once
    rw [accepted, dropped, is]
    exact ((List.perm_middle.append_left _).trans List.perm_middle).trans
      ((once.cons ticket).trans (List.perm_append_singleton _ _).symm)
  · have inOrder := orderly.inOrder isChecked
    rw [was, List.filter_append] at inOrder
    rw [is, List.filter_append, List.filter_cons]
    by_cases isWay : item.needsVerification = isChecked
    · have alone : behind.filter (fun other => other.item.needsVerification == isChecked) = [] :=
        List.filter_eq_nil_iff.mpr fun other member => by simpa [isWay] using others other member
      rw [alone, List.append_nil] at inOrder
      rw [alone, if_pos (by simpa [nextTicket] using isWay)]
      refine List.pairwise_append.mpr ⟨inOrder, List.pairwise_singleton _ _, ?_⟩
      intro one member other isLast
      rw [List.mem_singleton.mp isLast]
      refine orderly.number_lt ?_
      rw [was]
      exact List.mem_append_left _ (List.mem_of_mem_filter member)
    · rw [if_neg (by simpa [nextTicket] using isWay)]
      exact inOrder
  · unfold Journal.accept
    split
    · next needs =>
        rw [← List.append_assoc]
        exact List.forall_mem_append.mpr ⟨orderly.unchecked, List.forall_mem_singleton.mpr needs⟩
    · exact orderly.unchecked

/-- Dropping tickets leaves the others in order. -/
theorem putBack (orderly : journal.Orderly) (view : Tables) (isKept : QueuedBlock → Bool) :
    (journal.putBack view isKept).Orderly := by
  let kept := journal.checking.filter fun ticket => isKept ticket.item
  let left := journal.checking.filter fun ticket => !isKept ticket.item
  have dropped : (journal.putBack view isKept).dropped.map Prod.fst
      = journal.dropped.map Prod.fst ++ left := by
    simp only [Journal.putBack, List.map_append, List.map_map, left]
    exact congrArg _ (List.map_id _)
  have passing : (journal.putBack view isKept).passing
      = journal.handed.map Prod.fst ++ journal.inHand ++ journal.ready ++ kept
        ++ journal.unverified := by
    simp [Journal.putBack, Journal.passing, kept]
  have smaller : (journal.putBack view isKept).passing.Sublist journal.passing := by
    rw [passing]
    exact (List.filter_sublist.append_left _).append_right _
  have split : (left ++ kept).Perm journal.checking :=
    List.perm_append_comm.trans (List.filter_append_perm _ _)
  refine ⟨orderly.numbered, ?_, fun isChecked => ?_, fun ticket member => ?_⟩
  · refine List.Perm.trans ?_ orderly.once
    rw [dropped, passing, List.perm_iff_count]
    intro ticket
    have counted := split.count_eq ticket
    simp only [Journal.passing, List.count_append] at counted ⊢
    omega
  · exact (orderly.inOrder isChecked).sublist (smaller.filter _)
  · exact orderly.unchecked ticket (List.mem_append_right _ member)

end Orderly

/-! ## Steps -/

section Steps

variable {links : EpochLinks} {stages next : Stages} {journal : Journal} {item : QueuedBlock}

/-- If nothing is put back, taken out or handed over, the journal notes what is new. -/
theorem observe_of_same (checking : next.checking = stages.checking)
    (inHand : next.inHand = stages.inHand) :
    journal.observe stages next = (newcomers stages next).foldl accept journal := by
  unfold observe
  rw [checking, inHand]
  cases stages.checking <;> cases stages.inHand <;> rfl

theorem observe_rests : journal.observe stages stages = journal := by
  rw [observe_of_same rfl rfl]
  simp [newcomers]

theorem observe_queue : journal.observe stages (stages.queue item) = journal.accept item := by
  have new : newcomers stages (stages.queue item) = [item] := by
    simp only [newcomers, Stages.queue, Lanes.ready_enqueue, Lanes.unverified_enqueue,
      List.drop_left]
    split <;> rfl
  have noted : journal.observe stages (stages.queue item)
      = (newcomers stages (stages.queue item)).foldl accept journal := observe_of_same rfl rfl
  rw [noted, new]
  rfl

theorem observe_drains {view : Tables} {drained : List QueuedBlock}
    (idle : stages.checking = none) (checking : next.checking = some (view, drained)) :
    journal.observe stages next = journal.drain drained.length := by
  unfold observe
  rw [idle, checking]

theorem observe_returns {view : Tables} {drained : List QueuedBlock}
    (checked : stages.checking = some (view, drained)) (idle : next.checking = none) :
    journal.observe stages next
      = journal.putBack view fun item => next.hashes.contains item.hash := by
  unfold observe
  rw [checked, idle]

theorem observe_takes (free : stages.inHand = none) (rest : List QueuedBlock)
    (hashes : Table BlockHash Unit) : journal.observe stages { stages with
      ready := rest, inHand := some item, hashes } = journal.take := by
  unfold observe
  rw [free]
  cases stages.checking <;> rfl

theorem observe_hands (holds : stages.inHand = some item) :
    journal.observe stages { stages with inHand := none } = journal.hand item := by
  unfold observe
  rw [holds]
  cases stages.checking <;> rfl

variable (follows : journal.Follows links stages)

include follows

/-- A block that did not have to be checked is ready as it is. -/
theorem Follows.accept (item : QueuedBlock) :
    (journal.accept item).Follows links (stages.queue item) := by
  have ready : (stages.queue item).ready
      = stages.ready ++ if item.needsVerification then [] else [item] := Lanes.ready_enqueue ..
  have unverified : (stages.queue item).unverified
      = stages.unverified ++ if item.needsVerification then [item] else [] :=
    Lanes.unverified_enqueue ..
  unfold Journal.accept
  by_cases needs : item.needsVerification
  · simp only [if_pos needs, List.append_nil] at ready unverified ⊢
    refine { follows with ready := ready ▸ follows.ready, unverified := ?_ }
    rw [unverified, List.map_append, follows.unverified]
    rfl
  · simp only [if_neg needs, List.append_nil] at ready unverified ⊢
    refine { follows with ready := ?_, unverified := unverified ▸ follows.unverified }
    have readied : (journal.nextTicket item).readied links = item := if_neg needs
    rw [ready, List.map_append, follows.ready, List.map_singleton, readied]

theorem Follows.drain (count : Nat) (view : Tables) :
    (journal.drain (stages.unverified.take count).length).Follows links { stages with
      checking := some (view, stages.unverified.take count)
      unverified := stages.unverified.drop count } := by
  have taken : stages.unverified.take (stages.unverified.take count).length
      = stages.unverified.take count := by
    rw [List.take_eq_take_iff, List.length_take]
    omega
  have rest : stages.unverified.drop (stages.unverified.take count).length
      = stages.unverified.drop count := by
    rw [List.drop_eq_drop_iff, List.length_take]
    omega
  refine { follows with unverified := ?_, checking := ?_ }
  · rw [Journal.drain, List.map_drop, follows.unverified, rest]
  · rw [Journal.drain, List.map_take, follows.unverified, taken]
    rfl

/-- The hashes tell which of the checked blocks have been put back. -/
theorem Follows.putBack {view : Tables} {drained : List QueuedBlock}
    {hashes : Table BlockHash Unit} (orderly : journal.Orderly) (exact : stages.Exact)
    (checked : stages.checking = some (view, drained))
    (contains_iff : ∀ hash, hashes.contains hash ↔ stages.hashes.contains hash ∧
      ∀ item ∈ drained, item.isDropped links view → item.hash ≠ hash) :
    (journal.putBack view fun item => hashes.contains item.hash).Follows links { stages with
      checking := none
      ready := stages.ready ++ (drained.filter fun item => !item.isDropped links view).map
        (QueuedBlock.settled links)
      hashes } := by
  have isDrained : journal.checking.map Ticket.item = drained := by
    rw [follows.checking, Stages.drained, checked]
    rfl
  have isKept (ticket : Ticket) (member : ticket ∈ journal.checking) :
      hashes.contains ticket.item.hash = !ticket.item.isDropped links view :=
    exact.contains_returned checked contains_iff (isDrained ▸ List.mem_map_of_mem member)
  have needs (ticket : Ticket) (member : ticket ∈ journal.checking) :
      ticket.item.needsVerification :=
    orderly.unchecked ticket (List.mem_append_left _ member)
  refine { follows with checking := rfl, ready := ?_, dropped := ?_ }
  · rw [Journal.putBack, List.map_append, follows.ready, List.filter_congr isKept, ← isDrained,
      List.filter_map, List.map_map]
    refine congrArg _ (List.map_congr_left fun ticket member => ?_)
    exact if_pos (needs ticket (List.mem_of_mem_filter member))
  · refine List.forall_mem_append.mpr ⟨follows.dropped, ?_⟩
    simp only [List.mem_map, List.mem_filter, forall_exists_index, and_imp]
    rintro _ ticket member gone rfl
    refine ⟨needs ticket member, ?_⟩
    rw [isKept ticket member, Bool.not_not, QueuedBlock.isDropped, Bool.or_eq_true,
      beq_iff_eq] at gone
    exact gone

theorem Follows.take {rest : List QueuedBlock} (isNext : stages.ready = item :: rest)
    (hashes : Table BlockHash Unit) : journal.take.Follows links { stages with
      ready := rest, inHand := some item, hashes } := by
  have ready := follows.ready
  rw [isNext] at ready
  refine { follows with ready := ?_, inHand := ?_ }
  · rw [Journal.take, List.map_drop, ready]
    rfl
  · rw [Journal.take, List.map_take, ready]
    rfl

theorem Follows.hand (holds : stages.inHand = some item) :
    (journal.hand item).Follows links { stages with inHand := none } := by
  have isHeld : journal.inHand.map (Ticket.readied links) = [item] := by
    rw [follows.inHand, holds]
    rfl
  refine { follows with inHand := rfl, handed := ?_ }
  refine List.forall_mem_append.mpr ⟨follows.handed, ?_⟩
  simp only [List.mem_map, forall_exists_index, and_imp]
  rintro _ ticket member rfl
  have isItem := List.mem_map_of_mem (f := Ticket.readied links) member
  rw [isHeld] at isItem
  exact (List.mem_singleton.mp isItem).symm

/-- Whatever a step does, the journal goes along with it. -/
theorem Follows.step (orderly : journal.Orderly) (exact : stages.Exact)
    (shifts : Stages.Shifts links stages next) :
    (journal.observe stages next).Follows links next ∧
      (journal.observe stages next).Orderly := by
  cases shifts with
  | rests =>
      rw [observe_rests]
      exact ⟨follows, orderly⟩
  | @queues item isNew =>
      rw [observe_queue]
      exact ⟨follows.accept item, orderly.accept item⟩
  | @drains view count idle =>
      rw [observe_drains idle rfl]
      refine ⟨follows.drain count view, orderly.drain ?_ _⟩
      simpa [Stages.drained, idle] using follows.checking
  | returns checked contains_iff =>
      rw [observe_returns checked rfl]
      exact ⟨follows.putBack orderly exact checked contains_iff, orderly.putBack _ _⟩
  | takes isNext free =>
      rw [observe_takes free]
      refine ⟨follows.take isNext _, orderly.take ?_⟩
      simpa [free] using follows.inHand
  | hands holds =>
      rw [observe_hands holds]
      exact ⟨follows.hand holds, orderly.hand _⟩

end Steps

/-! ## Runs -/

namespace Extends

variable {journal middle later : Journal}

theorem refl (journal : Journal) : journal.Extends journal :=
  ⟨List.prefix_rfl, List.prefix_rfl, List.prefix_rfl⟩

theorem trans (first : journal.Extends middle) (second : middle.Extends later) :
    journal.Extends later :=
  ⟨first.accepted.trans second.accepted, first.handed.trans second.handed,
    first.dropped.trans second.dropped⟩

theorem foldl_accept (journal : Journal) (items : List QueuedBlock) :
    journal.Extends (items.foldl Journal.accept journal) := by
  induction items generalizing journal with
  | nil => exact .refl journal
  | cons item rest inductionHypothesis =>
      refine .trans ?_ (inductionHypothesis (journal.accept item))
      unfold Journal.accept
      split
      · exact ⟨List.prefix_append _ _, List.prefix_rfl, List.prefix_rfl⟩
      · exact ⟨List.prefix_append _ _, List.prefix_rfl, List.prefix_rfl⟩

theorem observe (before after : Stages) (journal : Journal) :
    journal.Extends (journal.observe before after) := by
  unfold Journal.observe
  split
  · exact ⟨List.prefix_rfl, List.prefix_rfl, List.prefix_append _ _⟩
  · exact ⟨List.prefix_rfl, List.prefix_rfl, List.prefix_rfl⟩
  split
  · exact ⟨List.prefix_rfl, List.prefix_append _ _, List.prefix_rfl⟩
  · exact ⟨List.prefix_rfl, List.prefix_rfl, List.prefix_rfl⟩
  · exact .foldl_accept journal _

theorem keep (setup : IntakeSetup) (processor : Processor Tables) (journal : Journal)
    (actions : List Action) : journal.Extends (Journal.keep setup processor journal actions) := by
  exact Processor.logged_induction _ setup processor journal actions
    (fun before after log kept => kept.trans (.observe before.stages after.stages log))
    (.refl journal)

end Extends

end Journal

/-- The blocks that a run may bring: those that are parked from before, and those that it hands
in. -/
def Submissions.ofIntake (store : Tables) (actions : List Action) : Submissions :=
  ⟨store.parked.entries.map (fun entry => entry.2.block) ++ actions.flatMap Action.blocks, []⟩

namespace Processor

variable {setup : IntakeSetup} {processor : Processor Tables} {store : Tables}
  {submissions : Submissions} {journal : Journal} {actions : List Action}

/-- What the worker has in hand it offers to the ledger when it goes on. -/
theorem offers_inHand {item : QueuedBlock} (inHand : processor.stages.inHand = some item) :
    ∃ batch, ∀ moment, processor.act setup (.advance moment)
      = processor.offer setup moment.now item batch := by
  have inHand : processor.worker.inHand? = some item := inHand
  unfold Worker.inHand? at inHand
  split at inHand
  · next batch other handling =>
      obtain rfl := Option.some.inj inHand
      refine ⟨batch, fun moment => ?_⟩
      simp only [act, advance, handling]
      rfl
  · cases inHand

/-- A new intake has queued nothing, and only the blocks of its ledger are parked. -/
theorem obeys_ofIntake (settings : IntakeSettings) (store : Tables) (actions : List Action) :
    (Processor.new settings store).Obeys (.lenient (.ofIntake store actions)) := by
  refine obeys_new ⟨trivial, fun {key waiting} found => ?_⟩ settings
  exact List.mem_append_left _ (List.mem_map.mpr
    ⟨(key, waiting), (Table.mem_entries_iff _ _ _).mpr found, rfl⟩)

theorem exact_new (settings : IntakeSettings) (store : Tables) :
    (Processor.new settings store).stages.Exact where
  contains_iff hash := by
    refine iff_of_false nofun ?_
    rintro ⟨item, member, -⟩
    exact nomatch member
  distinct := .nil

theorem follows_new (links : EpochLinks) (settings : IntakeSettings) (store : Tables) :
    Journal.blank.Follows links (Processor.new settings store).stages where
  unverified := rfl
  checking := rfl
  ready := rfl
  inHand := rfl
  handed := by simp [Journal.blank]
  dropped := by simp [Journal.blank]

/-- Along a run, the hashes stay exact and the journal goes along. -/
theorem Obeys.kept (obeys : processor.Obeys (.lenient submissions)) (apart : submissions.ToldApart)
    (handed : ∀ action ∈ actions, ∀ block ∈ action.blocks, block ∈ submissions.blocks)
    (exact : processor.stages.Exact) (orderly : journal.Orderly)
    (follows : journal.Follows setup.constants.epochs processor.stages) :
    (processor.run setup actions).stages.Exact ∧
      (Journal.keep setup processor journal actions).Follows setup.constants.epochs
        (processor.run setup actions).stages ∧
      (Journal.keep setup processor journal actions).Orderly := by
  induction actions generalizing processor journal with
  | nil => exact ⟨exact, follows, orderly⟩
  | cons action rest inductionHypothesis =>
      obtain ⟨handedNow, handedLater⟩ := List.forall_mem_cons.mp handed
      have moves := moves_act setup processor action
      have shifts := obeys.shifts apart handedNow moves
      have upheld := Charter.upheld_lenient setup submissions
      have stillObeys := obeys.moves upheld handedNow
        (fun block forces => handedNow block (forces ▸ List.mem_cons_self)) moves
      obtain ⟨stillFollows, stillOrderly⟩ := follows.step orderly exact shifts
      exact inductionHypothesis stillObeys handedLater (exact.shifts shifts) stillOrderly
        stillFollows

/-- However the threads take their turns: the hashes are exactly those of the blocks that are
queued or being checked, and no two of these have the same. Every block that has been queued has
been handed over to the ledger once, or dropped once, because its signature was bad or the ledger
that it was checked against had it, or it is in one place of the queues or in the hands of the
worker, which offers it next; and blocks that take the same way are handed over in the order in
which they were accepted. What has become of a block does not change later. -/
theorem queued_handed_or_dropped_once
    (apart : (Submissions.ofIntake store actions).ToldApart) :
    let initial := Processor.new setup.settings store
    let final := initial.run setup actions
    let journal := Journal.keep setup initial .blank actions
    final.stages.Exact ∧ journal.Orderly ∧ journal.Follows setup.constants.epochs final.stages ∧
      (∀ item, final.stages.inHand = some item → ∃ batch, ∀ moment,
        final.act setup (.advance moment) = final.offer setup moment.now item batch) ∧
      ∀ later, journal.Extends (Journal.keep setup initial .blank (actions ++ later)) := by
  intro initial final journal
  obtain ⟨exact, follows, orderly⟩ := (obeys_ofIntake setup.settings store actions).kept apart
    (fun action isAction block isBlock => List.mem_append_right _
      (List.mem_flatMap.mpr ⟨action, isAction, isBlock⟩))
    (exact_new setup.settings store) .blank
    (follows_new setup.constants.epochs setup.settings store)
  refine ⟨exact, orderly, follows, fun item inHand => offers_inHand inHand, fun later => ?_⟩
  rw [Journal.keep, logged_append]
  exact .keep setup final journal later

section Development

open Ledger LedgerConstants

/-- An unsigned block that has to be checked. -/
def devStray : Block where
  content := .state
    { account := ⟨7⟩, previous := .zero, representative := ⟨7⟩, balance := .zero, link := .zero }
  signature := ⟨.allOnes 512⟩
  work := 0

/-- An unsigned block that is offered to the ledger unchecked. -/
def devPromise : Block where
  content := .send { previous := ⟨8⟩, destination := ⟨7⟩, balance := .zero }
  signature := ⟨.allOnes 512⟩
  work := 0

/-- A block that has to be checked comes in, and then one that has not. -/
def devContest : List Action :=
  [.add devStray .zero, .add devPromise .zero, .start] ++ List.replicate 6 (.advance ⟨.zero, 0⟩)

private theorem devContest_evaluated :
    (started .dev .zero .empty none).parked.entries = [] ∧
      Interner.digest devStray ≠ Interner.digest devPromise ∧
      let journal := Journal.keep devSetup devFresh .blank devContest
      journal.handed.map (fun entry => entry.1.number) = [1] ∧
        journal.dropped.map (fun entry => entry.1.number) = [0] := by
  decide +kernel

/-- The block that came first is dropped after its check, and the other one is handed over. -/
theorem devContest_journal :
    let journal := Journal.keep devSetup devFresh .blank devContest
    (devFresh.run devSetup devContest).stages.Exact ∧ journal.Orderly ∧
      journal.handed.map (fun entry => entry.1.number) = [1] ∧
      journal.dropped.map (fun entry => entry.1.number) = [0] := by
  intro journal
  obtain ⟨noneParked, different, noted⟩ := devContest_evaluated
  have apart : (Submissions.ofIntake (started .dev .zero .empty none) devContest).ToldApart := by
    simp [Submissions.ToldApart, Submissions.ofIntake, noneParked, devContest, Action.blocks,
      different, Ne.symm different]
  obtain ⟨exact, orderly, -⟩ := queued_handed_or_dropped_once apart
  exact ⟨exact, orderly, noted⟩

end Development

end Processor

end AccountChains
