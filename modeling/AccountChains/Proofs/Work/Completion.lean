import Mathlib.Data.List.Count
import Mathlib.Data.List.Nodup
import AccountChains.Proofs.Work.Turns

/-!
Contract: a search for a nonce comes to its end, and to the right one.

It is enough that every thread gets its turns, be it one in every round or one sooner or
later. Where some nonce reaches, it is on the walk of some thread, and that thread
finishes after so many turns. A thread that has finished without the search being given
up has found the flag up or has raised it, so all of them then end their batches.

Owns: rounds, endless interleavings, and what a search comes to. Does not own: which
nonces a thread tries, and how many turns it needs.
-/

namespace AccountChains.Work

open ThreadPhase (batchSize)

namespace Search

/-! ## Interleavings of a whole search -/

section Searches

variable {target : Target} {threads index hit : Nat} {cancelled : Bool} {events : List Event}

theorem orderly_run (target : Target) (threads : Nat) (cancelled : Bool) (events : List Event) :
    Orderly target (max threads 1) ((start threads cancelled).run target events) :=
  (orderly_start target threads cancelled).run events

/-- A thread finishes that gets the turns to come to a nonce that reaches, and three more. -/
theorem finished_of_hit (cancelled : Bool) (exists_thread : index < max threads 1)
    (hits : reaches target.root (walk (max threads 1) index hit) target.threshold = true)
    (enough : hit + 2 * (hit / batchSize) + 5 ≤ events.count (.turn index)) :
    ((start threads cancelled).run target events).phase index = .finished := by
  have comes : hit + 2 * (hit / batchSize) + 2 ≤ events.count (.turn index) := by omega
  obtain ⟨steps, few, reached⟩ := countdown_nears.exists_take
    (orderly_start target threads cancelled).length_eq (nears_start hit cancelled exists_thread)
    comes
  have split := List.take_append_drop steps events
  rw [← split, List.count_append] at enough
  rw [← split, run_append]
  exact countdown_concludes.finished trivial (concludes_of_reached reached hits) (by omega)

/-- A thread only finishes when a nonce has been found, unless the search was given up. -/
theorem done_of_finished (exists_thread : index < max threads 1)
    (finished : ((start threads false).run target events).phase index = .finished)
    (kept : ∀ event ∈ events, event ≠ .cancel) :
    ((start threads false).run target events).done = true := by
  rcases (orderly_run target threads false events).stopped exists_thread finished with
    up | givenUp
  · exact up
  · rw [cancelled_run kept] at givenUp
    cases givenUp

/-- As long as no nonce reaches, none is found. -/
theorem not_done_of_unreached
    (unreached : ∀ nonce, reaches target.root nonce target.threshold = false) :
    ((start threads cancelled).run target events).done = false := by
  have orderly := orderly_run target threads cancelled events
  apply eq_false_of_ne_true
  intro up
  have noFind (nonce : UInt64) : ¬ Finds target (max threads 1) nonce := by
    rintro ⟨index, -, count, first, -⟩
    exact absurd first.hits (by simp [unreached])
  rcases orderly.stored up with ⟨index, nonce, storing⟩ | finds
  · exact noFind nonce (orderly.finds storing)
  · exact noFind _ finds

end Searches

/-! ## Threads that take turns -/

/-- So many rounds, one after the other. -/
def turnsAbout (threads count : Nat) : List Event := (List.replicate count (round threads)).flatten

section Rounds

variable {target : Target} {search : Search} {threads index count : Nat} {cancelled : Bool}

theorem turnsAbout_add (threads first second : Nat) : turnsAbout threads (first + second)
    = turnsAbout threads first ++ turnsAbout threads second := by
  rw [turnsAbout, ← List.replicate_append_replicate, List.flatten_append, turnsAbout, turnsAbout]

theorem turnsAbout_one (threads : Nat) : turnsAbout threads 1 = round threads :=
  List.append_nil _

theorem count_turnsAbout (exists_thread : index < threads) :
    (turnsAbout threads count).count (.turn index) = count := by
  have distinct : (round threads).Nodup :=
    List.Nodup.map (fun first second same => Event.turn.inj same) List.nodup_range
  have once : (round threads).count (.turn index) = 1 :=
    List.count_eq_one_of_mem distinct
      (List.mem_map.mpr ⟨index, List.mem_range.mpr exists_thread, rfl⟩)
  rw [turnsAbout, List.count_flatten, List.map_replicate, once, List.sum_replicate_nat, Nat.mul_one]

theorem ne_cancel_of_mem_turnsAbout {event : Event} (member : event ∈ turnsAbout threads count) :
    event ≠ .cancel := by
  obtain ⟨each, isRound, inRound⟩ := List.mem_flatten.mp member
  rw [List.eq_of_mem_replicate isRound] at inRound
  obtain ⟨index, -, rfl⟩ := List.mem_map.mp inRound
  exact nofun

/-- Rounds are taken until the search is over, or as many as there may be. -/
theorem exists_rounds_eq (target : Target) (count : Nat) (search : Search) :
    ∃ taken, rounds target count search
        = search.run target (turnsAbout search.threads.length taken) ∧
      ((rounds target count search).isOver ∨ taken = count) := by
  induction count generalizing search with
  | zero => exact ⟨0, rfl, .inr rfl⟩
  | succ count inductionHypothesis =>
      rw [rounds]
      split
      · next allFinished => exact ⟨0, rfl, .inl allFinished⟩
      · obtain ⟨taken, isRun, ended⟩ :=
          inductionHypothesis (search.run target (round search.threads.length))
        refine ⟨taken + 1, ?_, ended.imp_right (congrArg (· + 1))⟩
        rw [isRun, length_run, Nat.add_comm, turnsAbout_add, run_append, turnsAbout_one]

end Rounds

/-! ## Endless interleavings -/

/-- The first events of an endless interleaving. -/
def upTo (schedule : Nat → Event) (steps : Nat) : List Event := (List.range steps).map schedule

/-- What is left of an endless interleaving after its first events. -/
def onward (schedule : Nat → Event) (steps : Nat) : Nat → Event :=
  fun later => schedule (steps + later)

/-- Every thread takes another step sooner or later, unless it has finished. -/
def Fair (target : Target) (search : Search) (schedule : Nat → Event) : Prop :=
  ∀ index steps, (search.run target (upTo schedule steps)).phase index = .finished ∨
    ∃ later ≥ steps, schedule later = .turn index

section Endless

variable {target : Target} {search : Search} {schedule : Nat → Event}
  {index turns steps later : Nat}

theorem upTo_succ : upTo schedule (steps + 1) = upTo schedule steps ++ [schedule steps] := by
  rw [upTo, List.range_succ, List.map_append]
  rfl

theorem upTo_add (schedule : Nat → Event) (steps more : Nat) :
    upTo schedule (steps + more) = upTo schedule steps ++ upTo (onward schedule steps) more := by
  rw [upTo, List.range_add, List.map_append, List.map_map]
  rfl

theorem take_upTo (schedule : Nat → Event) (steps count : Nat) :
    (upTo schedule steps).take count = upTo schedule (min count steps) := by
  rw [upTo, ← List.map_take, List.take_range]
  rfl

theorem run_upTo_add (more : Nat) : search.run target (upTo schedule (steps + more))
    = (search.run target (upTo schedule steps)).run target (upTo (onward schedule steps) more) := by
  rw [upTo_add, run_append]

theorem finished_upTo (inTime : steps ≤ later)
    (finished : (search.run target (upTo schedule steps)).phase index = .finished) :
    (search.run target (upTo schedule later)).phase index = .finished := by
  obtain ⟨more, rfl⟩ := Nat.exists_eq_add_of_le inTime
  rw [run_upTo_add]
  exact finished_run finished

theorem ne_cancel_of_mem_upTo (kept : ∀ step, schedule step ≠ .cancel) {event : Event}
    (member : event ∈ upTo schedule steps) : event ≠ .cancel := by
  obtain ⟨step, -, rfl⟩ := List.mem_map.mp member
  exact kept step

theorem Fair.onward (fair : Fair target search schedule) (steps : Nat) :
    Fair target (search.run target (upTo schedule steps)) (onward schedule steps) := by
  intro index more
  rcases fair index (steps + more) with finished | ⟨later, inTime, own⟩
  · rw [run_upTo_add] at finished
    exact .inl finished
  · refine .inr ⟨later - steps, by omega, ?_⟩
    rw [Search.onward, Nat.add_sub_of_le (by omega)]
    exact own

/-- Sooner or later a thread has finished or has had as many turns as one likes. -/
theorem Fair.exists_count (fair : Fair target search schedule) (index turns : Nat) :
    ∃ steps, (search.run target (upTo schedule steps)).phase index = .finished ∨
      turns ≤ (upTo schedule steps).count (.turn index) := by
  induction turns with
  | zero => exact ⟨0, .inr (Nat.zero_le _)⟩
  | succ turns inductionHypothesis =>
      obtain ⟨steps, finished | enough⟩ := inductionHypothesis
      · exact ⟨steps, .inl finished⟩
      · rcases fair index steps with finished | ⟨later, inTime, own⟩
        · exact ⟨steps, .inl finished⟩
        · refine ⟨later + 1, .inr ?_⟩
          obtain ⟨more, rfl⟩ := Nat.exists_eq_add_of_le inTime
          rw [upTo_succ, own, upTo_add, List.count_append, List.count_append,
            List.count_singleton_self]
          omega

/-- A countdown comes to its end. -/
theorem Countdown.exists_upTo {holds : Search → Prop} {goal : ThreadPhase → Prop}
    {within : Nat → ThreadPhase → Prop} (countdown : Countdown target holds goal within)
    (atEnd : goal .finished) (fair : Fair target search schedule) (stands : holds search)
    (near : within turns (search.phase index)) :
    ∃ steps, goal ((search.run target (upTo schedule steps)).phase index) := by
  obtain ⟨steps, finished | enough⟩ := fair.exists_count index turns
  · exact ⟨steps, finished ▸ atEnd⟩
  · obtain ⟨count, -, atGoal⟩ := countdown.exists_take stands near enough
    rw [take_upTo] at atGoal
    exact ⟨_, atGoal⟩

/-- If each thread finishes, then all of them have finished at some time. -/
theorem exists_isOver
    (each : ∀ index, ∃ steps, (search.run target (upTo schedule steps)).phase index = .finished) :
    ∃ steps, (search.run target (upTo schedule steps)).isOver := by
  -- The threads finish at different times, and each stays finished, so the last time is enough.
  have below (bound : Nat) : ∃ steps, ∀ index < bound,
      (search.run target (upTo schedule steps)).phase index = .finished := by
    induction bound with
    | zero => exact ⟨0, fun index below => absurd below (Nat.not_lt_zero index)⟩
    | succ bound inductionHypothesis =>
        obtain ⟨steps, earlier⟩ := inductionHypothesis
        obtain ⟨more, last⟩ := each bound
        refine ⟨max steps more, ?_⟩
        intro index below
        rcases Nat.lt_succ_iff_lt_or_eq.mp below with less | rfl
        · exact finished_upTo (Nat.le_max_left _ _) (earlier index less)
        · exact finished_upTo (Nat.le_max_right _ _) last
  obtain ⟨steps, all⟩ := below search.threads.length
  refine ⟨steps, isOver_iff.mpr ?_⟩
  intro index
  by_cases exists_thread : index < search.threads.length
  · exact all index exists_thread
  · exact finished_run (phase_of_length_le (Nat.le_of_not_lt exists_thread))

end Endless

/-! ## What a search comes to -/

/-- All threads have finished after these events, and the caller gets this nonce. -/
def Answers (target : Target) (search : Search) (events : List Event) (nonce : UInt64) : Prop :=
  (search.run target events).isOver = true ∧ (search.run target events).outcome = .ok nonce

section Outcomes

variable {target : Target} {threads : Nat} {cancelled : Bool} {schedule : Nat → Event}
  {events : List Event} {nonce : UInt64}

theorem Answers.finds (answers : Answers target (start threads cancelled) events nonce) :
    Finds target (max threads 1) nonce :=
  (orderly_run target threads cancelled events).finds_outcome answers.1 answers.2

theorem Finds.hits (finds : Finds target threads nonce) :
    reaches target.root nonce target.threshold = true := by
  obtain ⟨index, -, count, first, rfl⟩ := finds
  exact first.hits

/-- What a thread on its own finds is the least nonce that reaches. -/
theorem Finds.least (finds : Finds target (max threads 1) nonce) (single : threads ≤ 1)
    {smaller : UInt64} (less : smaller < nonce) :
    reaches target.root smaller target.threshold = false := by
  obtain ⟨index, exists_thread, count, first, rfl⟩ := finds
  rw [Nat.max_eq_right single] at exists_thread first less
  obtain rfl : index = 0 := Nat.lt_one_iff.mp exists_thread
  exact first.least less

section Kept

variable (fair : Fair target (start threads false) schedule)
  (kept : ∀ step, schedule step ≠ .cancel)

include fair kept

/-- A nonce that reaches is on the walk of some thread, so one is found. -/
theorem exists_done (hits : reaches target.root nonce target.threshold = true) :
    ∃ steps, ((start threads false).run target (upTo schedule steps)).done = true := by
  obtain ⟨index, exists_thread, hit, -, isWalk⟩ :=
    exists_walk_eq (Nat.le_max_right threads 1) nonce
  rw [← isWalk] at hits
  obtain ⟨steps, finished | enough⟩ :=
    fair.exists_count index (hit + 2 * (hit / batchSize) + 5)
  · exact ⟨steps, done_of_finished exists_thread finished fun _ => ne_cancel_of_mem_upTo kept⟩
  · have finished := finished_of_hit false exists_thread hits enough
    exact ⟨steps, done_of_finished exists_thread finished fun _ => ne_cancel_of_mem_upTo kept⟩

theorem exists_answers (hits : reaches target.root nonce target.threshold = true) :
    ∃ steps nonce, Answers target (start threads false) (upTo schedule steps) nonce := by
  obtain ⟨steps, up⟩ := exists_done fair kept hits
  have orderly := orderly_run target threads false (upTo schedule steps)
  obtain ⟨more, allFinished⟩ := exists_isOver fun index =>
    countdown_found.exists_upTo rfl (fair.onward steps) up
      (turnsOnceFound_le (orderly.onWalk index))
  rw [← run_upTo_add] at allFinished
  have stillUp : ((start threads false).run target (upTo schedule (steps + more))).done = true := by
    rw [run_upTo_add]
    exact done_run up
  exact ⟨steps + more, _, allFinished, if_pos stillUp⟩

/-- Every nonce is tried by some thread, unless one is found before. -/
theorem exists_tried (nonce : UInt64) :
    ∃ steps, ((start threads false).run target (upTo schedule steps)).done = true ∨
      ∃ index left, ((start threads false).run target (upTo schedule steps)).phase index
        = .trying nonce left := by
  by_cases reached : ∃ other, reaches target.root other target.threshold = true
  · obtain ⟨other, hits⟩ := reached
    obtain ⟨steps, up⟩ := exists_done fair kept hits
    exact ⟨steps, .inl up⟩
  · have unreached (other : UInt64) : reaches target.root other target.threshold = false :=
      eq_false_of_ne_true fun hits => reached ⟨other, hits⟩
    obtain ⟨index, exists_thread, hit, -, isWalk⟩ :=
      exists_walk_eq (Nat.le_max_right threads 1) nonce
    obtain ⟨steps, atNonce⟩ := countdown_nears.exists_upTo trivial fair
      (orderly_start target threads false).length_eq (nears_start hit false exists_thread)
    have orderly := orderly_run target threads false (upTo schedule steps)
    refine ⟨steps, ?_⟩
    cases isPhase : ((start threads false).run target (upTo schedule steps)).phase index with
    | checking | consulting =>
        rw [isPhase] at atNonce
        exact atNonce.elim
    | trying tried left =>
        rw [isPhase] at atNonce
        refine .inr ⟨index, left, ?_⟩
        rw [isPhase, ← isWalk]
        exact congrArg (ThreadPhase.trying · left) atNonce
    | announcing =>
        have onWalk := orderly.onWalk index
        rw [isPhase] at onWalk
        cases onWalk with
        | announcing first => exact absurd first.hits (by simp [unreached])
    | storing => exact .inl (orderly.raised isPhase)
    | finished =>
        exact .inl (done_of_finished exists_thread isPhase fun _ => ne_cancel_of_mem_upTo kept)

end Kept

/-- A search that is given up comes to its end. -/
theorem exists_isOver_of_givenUp (fair : Fair target (start threads cancelled) schedule)
    (givenUp : cancelled = true ∨ ∃ step, schedule step = .cancel) :
    ∃ steps, ((start threads cancelled).run target (upTo schedule steps)).isOver = true := by
  have isGivenUp : ∃ steps,
      ((start threads cancelled).run target (upTo schedule steps)).cancelled = true := by
    rcases givenUp with rfl | ⟨step, cancels⟩
    · exact ⟨0, rfl⟩
    · refine ⟨step + 1, ?_⟩
      rw [upTo_succ, run_append, cancels]
      rfl
  obtain ⟨steps, stopped⟩ := isGivenUp
  have orderly := orderly_run target threads cancelled (upTo schedule steps)
  obtain ⟨more, allFinished⟩ := exists_isOver fun index =>
    countdown_givenUp.exists_upTo rfl (fair.onward steps) stopped
      (turnsOnceGivenUp_le (orderly.onWalk index))
  rw [← run_upTo_add] at allFinished
  exact ⟨steps + more, allFinished⟩

/-! ### The rounds of a search -/

/-- The threads only finish when a nonce has been found, unless the search was given up. -/
theorem done_of_isOver (allFinished : ((start threads false).run target events).isOver)
    (kept : ∀ event ∈ events, event ≠ .cancel) :
    ((start threads false).run target events).done = true :=
  done_of_finished (Nat.le_max_right threads 1) (isOver_iff.mp allFinished 0) kept

theorem isOver_of_rounds_givenUp (target : Target) (threads : Nat) :
    ((start threads true).run target (turnsAbout (max threads 1) enoughRounds)).isOver = true := by
  have orderly := orderly_start target threads true
  apply countdown_givenUp.isOver rfl fun index => turnsOnceGivenUp_le (orderly.onWalk index)
  intro index exists_thread
  rw [orderly.length_eq] at exists_thread
  rw [count_turnsAbout exists_thread]
  decide

/-- The rounds are enough for a thread to come to any nonce, and then for all of them to end their
batches. -/
theorem isOver_of_rounds_hit (threads : Nat)
    (hits : reaches target.root nonce target.threshold = true) :
    ((start threads false).run target (turnsAbout (max threads 1) enoughRounds)).isOver = true := by
  obtain ⟨index, exists_thread, hit, small, isWalk⟩ :=
    exists_walk_eq (Nat.le_max_right threads 1) nonce
  rw [← isWalk] at hits
  -- First the thread that comes to the nonce finishes, and the flag is up; then all others do.
  let untilFound := UInt64.size + 2 * (UInt64.size / batchSize) + 2
  have split : enoughRounds = untilFound + (batchSize + 2) := rfl
  have enough : hit + 2 * (hit / batchSize) + 5 ≤ untilFound := by
    show hit + 2 * (hit / 4096) + 5 ≤ 18446744073709551616 + 2 * (18446744073709551616 / 4096) + 2
    have below : hit < 18446744073709551616 := small
    omega
  have finished := finished_of_hit false exists_thread hits
    (enough.trans (count_turnsAbout exists_thread).ge)
  have up := done_of_finished exists_thread finished fun _ => ne_cancel_of_mem_turnsAbout
  have orderly := orderly_run target threads false (turnsAbout (max threads 1) untilFound)
  rw [split, turnsAbout_add, run_append]
  apply countdown_found.isOver up fun index => turnsOnceFound_le (orderly.onWalk index)
  intro other isThread
  rw [orderly.length_eq] at isThread
  exact (count_turnsAbout isThread).ge

/-- The rounds of a search are one of its interleavings, and it is over after them if it was given
up or if some nonce reaches. -/
theorem exists_rounds (target : Target) (threads : Nat) (cancelled : Bool) :
    ∃ taken, rounds target enoughRounds (start threads cancelled)
        = (start threads cancelled).run target (turnsAbout (max threads 1) taken) ∧
      (cancelled = true ∨ (∃ nonce, reaches target.root nonce target.threshold = true) →
        ((start threads cancelled).run target
          (turnsAbout (max threads 1) taken)).isOver = true) := by
  obtain ⟨taken, isRun, ended⟩ := exists_rounds_eq target enoughRounds (start threads cancelled)
  rw [(orderly_start target threads cancelled).length_eq] at isRun
  refine ⟨taken, isRun, ?_⟩
  intro ends
  rcases ended with allFinished | rfl
  · rwa [isRun] at allFinished
  · cases cancelled with
    | true => exact isOver_of_rounds_givenUp target threads
    | false =>
        obtain ⟨nonce, hits⟩ := ends.resolve_left Bool.false_ne_true
        exact isOver_of_rounds_hit threads hits

end Outcomes

end Search

section Generating

open Search

variable {target : Target} {threads : Nat} {cancelled : Bool} {nonce : UInt64}

theorem generate_of_ne_zero (positive : target.threshold ≠ 0) : generate threads cancelled target
    = (rounds target enoughRounds (start threads cancelled)).outcome :=
  if_neg positive

theorem reaches_of_eq_zero (zero : target.threshold = 0) (nonce : UInt64) :
    reaches target.root nonce target.threshold = true := by
  rw [zero, reaches, decide_eq_true_iff]
  exact UInt64.zero_le

/-- What comes out of the rounds is what some thread has found. -/
theorem finds_of_generate (positive : target.threshold ≠ 0)
    (answer : generate threads cancelled target = .ok nonce) :
    Finds target (max threads 1) nonce := by
  rw [generate_of_ne_zero positive] at answer
  obtain ⟨taken, isRun, allFinished⟩ := exists_rounds target threads cancelled
  rw [isRun] at answer
  by_cases ends :
      cancelled = true ∨ ∃ nonce, reaches target.root nonce target.threshold = true
  · exact Answers.finds ⟨allFinished ends, answer⟩
  · have unreached (other : UInt64) : reaches target.root other target.threshold = false :=
      eq_false_of_ne_true fun hits => ends (.inr ⟨other, hits⟩)
    rw [outcome, not_done_of_unreached unreached] at answer
    cases answer

/-- Rounds find a nonce that reaches if there is one. -/
theorem exists_generate (threads : Nat)
    (hits : ∃ nonce, reaches target.root nonce target.threshold = true) :
    ∃ nonce, generate threads false target = .ok nonce := by
  by_cases zero : target.threshold = 0
  · exact ⟨0, if_pos zero⟩
  · obtain ⟨taken, isRun, allFinished⟩ := exists_rounds target threads false
    have up := done_of_isOver (allFinished (.inr hits)) fun _ => ne_cancel_of_mem_turnsAbout
    rw [generate_of_ne_zero zero, isRun]
    exact ⟨_, if_pos up⟩

end Generating

/-- What a search by so many threads comes to, whatever they do in turn. -/
structure Settles (target : Target) (threads : Nat) : Prop where
  /-- A nonce that a search answers with reaches, whenever the search is given up, if it is. -/
  sound : ∀ {cancelled events nonce},
    Search.Answers target (.start threads cancelled) events nonce →
    reaches target.root nonce target.threshold = true
  /-- A thread on its own answers with the least nonce that reaches. -/
  least : threads ≤ 1 → ∀ {cancelled events nonce},
    Search.Answers target (.start threads cancelled) events nonce →
    ∀ smaller < nonce, reaches target.root smaller target.threshold = false
  /-- Every nonce is tried by some thread, unless another one is found before. -/
  tried : ∀ {schedule}, Search.Fair target (.start threads false) schedule →
    (∀ step, schedule step ≠ .cancel) → ∀ nonce,
    ∃ steps, ((Search.start threads false).run target (Search.upTo schedule steps)).done = true ∨
      ∃ index left, ((Search.start threads false).run target
        (Search.upTo schedule steps)).phase index = .trying nonce left
  /-- A search that is not given up answers after finitely many steps, if some nonce reaches. -/
  complete : ∀ {schedule}, Search.Fair target (.start threads false) schedule →
    (∀ step, schedule step ≠ .cancel) →
    (∃ nonce, reaches target.root nonce target.threshold = true) →
    ∃ steps nonce,
      Search.Answers target (.start threads false) (Search.upTo schedule steps) nonce
  /-- A search that is given up ends after finitely many steps. -/
  ends : ∀ {cancelled schedule}, Search.Fair target (.start threads cancelled) schedule →
    (cancelled = true ∨ ∃ step, schedule step = .cancel) →
    ∃ steps,
      ((Search.start threads cancelled).run target (Search.upTo schedule steps)).isOver = true
  /-- The same holds of the answer of the threads that take turns. -/
  generates : ∀ {cancelled nonce}, generate threads cancelled target = .ok nonce →
    reaches target.root nonce target.threshold = true ∧
      (threads ≤ 1 → ∀ smaller < nonce, reaches target.root smaller target.threshold = false)
  generates_some : (∃ nonce, reaches target.root nonce target.threshold = true) →
    ∃ nonce, generate threads false target = .ok nonce

/-- Every search for a nonce is sound and complete, and one by a single thread finds the least. -/
theorem search_settles (target : Target) (threads : Nat) : Settles target threads where
  sound answers := answers.finds.hits
  least single _ _ _ answers _ less := answers.finds.least single less
  tried fair kept nonce := Search.exists_tried fair kept nonce
  complete fair kept reached := by
    obtain ⟨nonce, hits⟩ := reached
    exact Search.exists_answers fair kept hits
  ends fair givenUp := Search.exists_isOver_of_givenUp fair givenUp
  generates {cancelled nonce} answer := by
    by_cases zero : target.threshold = 0
    · have isZero : nonce = 0 := (Except.ok.inj ((if_pos zero).symm.trans answer)).symm
      refine ⟨reaches_of_eq_zero zero nonce, ?_⟩
      intro _ smaller less
      rw [isZero] at less
      exact absurd less UInt64.not_lt_zero
    · have finds := finds_of_generate zero answer
      exact ⟨finds.hits, fun single smaller less => finds.least single less⟩
  generates_some hits := exists_generate threads hits

/-! ## Three threads that take turns -/

/-- Seven is the least nonce that reaches this threshold. -/
def sampleTarget : Target := ⟨⟨0⟩, 0xff00000000000000⟩

/-- The stride of three threads does not divide the number of nonces. -/
theorem sample_fair :
    Search.Fair sampleTarget (.start 3 false) fun step => .turn (step % 3) := by
  intro index steps
  by_cases exists_thread : index < 3
  · refine .inr ⟨3 * steps + index, by omega, ?_⟩
    have own : (3 * steps + index) % 3 = index := by omega
    exact congrArg Search.Event.turn own
  · exact .inl (Search.finished_run (Search.phase_of_length_le (Nat.le_of_not_lt exists_thread)))

theorem sample_settled : Settles sampleTarget 3 ∧ ∃ steps nonce,
    Search.Answers sampleTarget (.start 3 false)
      (Search.upTo (fun step => .turn (step % 3)) steps) nonce := by
  have settles := search_settles sampleTarget 3
  exact ⟨settles, settles.complete sample_fair nofun ⟨7, by decide +kernel⟩⟩

end AccountChains.Work
