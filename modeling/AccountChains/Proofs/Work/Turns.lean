import AccountChains.Proofs.Work.Walk

/-!
Contract: how many turns take a thread of a search to its end.

Only its own turns move a thread. So many of them bring it to a given nonce of its walk,
three more to its end if that nonce reaches, and so many to its end once a nonce has been
found or the search was given up, whatever the other threads do in between.

Owns: what keeps still between the turns of a thread, and the four countdowns. Does not
own: who gets a turn when.
-/

namespace AccountChains.Work

open ThreadPhase (batchSize)

namespace Search

/-! ## Turns -/

section Turns

variable {target : Target} {search : Search} {index : Nat} {event : Event}
  {events later : List Event}

theorem run_append :
    search.run target (events ++ later) = (search.run target events).run target later :=
  List.foldl_append

/-- A thread only moves on its own turns. -/
theorem phase_react_of_ne (other : event ≠ .turn index) :
    (search.react target event).phase index = search.phase index := by
  cases event with
  | turn taker =>
      apply phase_step_of_ne
      rintro rfl
      exact other rfl
  | cancel => rfl

theorem phase_react_self : (search.react target (.turn index)).phase index
    = (search.phase index).after target search.stride search.done search.cancelled :=
  phase_step_self

theorem finished_react (finished : search.phase index = .finished) :
    (search.react target event).phase index = .finished := by
  by_cases own : event = .turn index
  · rw [own, phase_react_self, finished]
    rfl
  · rw [phase_react_of_ne own, finished]

theorem finished_run (finished : search.phase index = .finished) :
    (search.run target events).phase index = .finished := by
  induction events generalizing search with
  | nil => exact finished
  | cons event rest inductionHypothesis => exact inductionHypothesis (finished_react finished)

theorem length_react : (search.react target event).threads.length = search.threads.length := by
  cases event with
  | turn taker => exact length_step
  | cancel => rfl

theorem length_run : (search.run target events).threads.length = search.threads.length := by
  induction events generalizing search with
  | nil => rfl
  | cons event rest inductionHypothesis => exact inductionHypothesis.trans length_react

theorem done_react (up : search.done = true) : (search.react target event).done = true := by
  cases event with
  | turn taker => exact done_step up
  | cancel => exact up

theorem done_run (up : search.done = true) : (search.run target events).done = true := by
  induction events generalizing search with
  | nil => exact up
  | cons event rest inductionHypothesis => exact inductionHypothesis (done_react up)

theorem cancelled_react (givenUp : search.cancelled = true) :
    (search.react target event).cancelled = true := by
  cases event with
  | turn taker => exact givenUp
  | cancel => rfl

/-- Nothing else gives a search up. -/
theorem cancelled_run (kept : ∀ event ∈ events, event ≠ .cancel) :
    (search.run target events).cancelled = search.cancelled := by
  induction events generalizing search with
  | nil => rfl
  | cons event rest inductionHypothesis =>
      have keptHere := kept event (List.mem_cons_self ..)
      have keptLater : ∀ other ∈ rest, other ≠ .cancel :=
        fun other inRest => kept other (List.mem_cons_of_mem _ inRest)
      refine (inductionHypothesis keptLater).trans ?_
      cases event with
      | turn taker => rfl
      | cancel => exact absurd rfl keptHere

end Turns

/-! ## How many turns a thread needs -/

/-- As long as something holds of the search, so many turns of its own bring a thread to a goal,
whatever happens in between. -/
structure Countdown (target : Target) (holds : Search → Prop) (goal : ThreadPhase → Prop)
    (within : Nat → ThreadPhase → Prop) : Prop where
  keeps : ∀ {search} (event : Event), holds search → holds (search.react target event)
  arrived : ∀ {phase}, within 0 phase → goal phase
  turn : ∀ {search phase turns}, holds search → within (turns + 1) phase →
    goal phase ∨ within turns (phase.after target search.stride search.done search.cancelled)

section Countdowns

variable {target : Target} {search : Search} {index turns : Nat} {events : List Event}
  {holds : Search → Prop} {goal : ThreadPhase → Prop} {within : Nat → ThreadPhase → Prop}

/-- A thread that gets enough turns is at its goal after some of the events. -/
theorem Countdown.exists_take (countdown : Countdown target holds goal within)
    (stands : holds search) (near : within turns (search.phase index))
    (enough : turns ≤ events.count (.turn index)) :
    ∃ steps, (events.take steps).count (.turn index) ≤ turns ∧
      goal ((search.run target (events.take steps)).phase index) := by
  induction events generalizing search turns with
  | nil =>
      obtain rfl : turns = 0 := Nat.le_zero.mp enough
      exact ⟨0, Nat.le_refl 0, countdown.arrived near⟩
  | cons event rest inductionHypothesis =>
      cases turns with
      | zero => exact ⟨0, Nat.le_refl 0, countdown.arrived near⟩
      | succ turns =>
          have standsNext := countdown.keeps event stands
          by_cases own : event = .turn index
          · rcases countdown.turn stands near with atGoal | nearer
            · exact ⟨0, Nat.zero_le _, atGoal⟩
            · rw [own, List.count_cons_self] at enough
              rw [← phase_react_self, ← own] at nearer
              obtain ⟨steps, few, atGoal⟩ :=
                inductionHypothesis standsNext nearer (Nat.le_of_succ_le_succ enough)
              refine ⟨steps + 1, ?_, atGoal⟩
              rw [List.take_succ_cons, own, List.count_cons_self]
              exact Nat.succ_le_succ few
          · rw [List.count_cons_of_ne own] at enough
            have stays : (search.react target event).phase index = search.phase index :=
              phase_react_of_ne own
            rw [← stays] at near
            obtain ⟨steps, few, atGoal⟩ := inductionHypothesis standsNext near enough
            refine ⟨steps + 1, ?_, atGoal⟩
            rw [List.take_succ_cons, List.count_cons_of_ne own]
            exact few

theorem Countdown.finished (countdown : Countdown target holds (· = .finished) within)
    (stands : holds search) (near : within turns (search.phase index))
    (enough : turns ≤ events.count (.turn index)) :
    (search.run target events).phase index = .finished := by
  obtain ⟨steps, -, finished⟩ := countdown.exists_take stands near enough
  rw [← List.take_append_drop steps events, run_append]
  exact finished_run finished

/-- The search is over once every thread has had its turns. -/
theorem Countdown.isOver (countdown : Countdown target holds (· = .finished) within)
    (stands : holds search) (near : ∀ index, within turns (search.phase index))
    (enough : ∀ index < search.threads.length, turns ≤ events.count (.turn index)) :
    (search.run target events).isOver := by
  apply isOver_iff.mpr
  intro index
  by_cases exists_thread : index < search.threads.length
  · exact countdown.finished stands (near index) (enough index exists_thread)
  · exact finished_run (phase_of_length_le (Nat.le_of_not_lt exists_thread))

end Countdowns

/-- A thread comes to the nonce number `hit` of its walk within so many turns: it tries those
ahead of it, and looks at both flags before each batch. -/
def Nears (threads index hit turns : Nat) : ThreadPhase → Prop
  | .checking nonce => ∃ tried ahead, tried + ahead = hit ∧ nonce = walk threads index tried ∧
      ahead + 2 * (ahead / batchSize) + 2 ≤ turns
  | .consulting nonce => ∃ tried ahead, tried + ahead = hit ∧ nonce = walk threads index tried ∧
      ahead + 2 * (ahead / batchSize) + 1 ≤ turns
  | .trying nonce left => ∃ tried ahead, tried + ahead = hit ∧ nonce = walk threads index tried ∧
      left < batchSize ∧ ahead + 2 * ((ahead + (batchSize - 1 - left)) / batchSize) ≤ turns
  | .announcing _ | .storing _ | .finished => True

/-- A thread is about to try this nonce of its walk, or has stopped trying. -/
def Reached (threads index hit : Nat) : ThreadPhase → Prop
  | .checking _ | .consulting _ => False
  | .trying nonce _ => nonce = walk threads index hit
  | .announcing _ | .storing _ | .finished => True

/-- A thread that has found a nonce, or is just about to, finishes within so many turns. -/
def Concludes (target : Target) (turns : Nat) : ThreadPhase → Prop
  | .checking _ | .consulting _ => False
  | .trying nonce _ => reaches target.root nonce target.threshold = true ∧ 3 ≤ turns
  | .announcing _ => 2 ≤ turns
  | .storing _ => 1 ≤ turns
  | .finished => True

/-- In how many turns a thread finishes once a nonce has been found. -/
def turnsOnceFound : ThreadPhase → Nat
  | .checking _ | .announcing _ | .storing _ => 1
  | .consulting _ => batchSize + 2
  | .trying _ left => left + 2
  | .finished => 0

/-- In how many turns a thread finishes once the search was given up. -/
def turnsOnceGivenUp : ThreadPhase → Nat
  | .checking _ | .announcing _ => 2
  | .consulting _ | .storing _ => 1
  | .trying _ left => left + 3
  | .finished => 0

section Thread

variable {target : Target} {threads index hit : Nat}

theorem countdown_nears :
    Countdown target (·.threads.length = threads) (Reached threads index hit)
      (Nears threads index hit) where
  keeps _ stands := length_react.trans stands
  arrived {phase} near := by
    cases phase with
    | checking nonce | consulting nonce =>
        obtain ⟨tried, ahead, -, -, few⟩ := near
        omega
    | trying nonce left =>
        obtain ⟨tried, ahead, rfl, rfl, -, few⟩ := near
        obtain rfl : ahead = 0 := by omega
        rfl
    | announcing | storing | finished => trivial
  turn {search phase turns} stands near := by
    cases phase with
    | checking nonce =>
        right
        obtain ⟨tried, ahead, together, isNonce, few⟩ := near
        cases search.done with
        | true => trivial
        | false => exact ⟨tried, ahead, together, isNonce, by omega⟩
    | consulting nonce =>
        right
        obtain ⟨tried, ahead, together, isNonce, few⟩ := near
        cases search.cancelled with
        | true => trivial
        | false =>
            refine ⟨tried, ahead, together, isNonce, by decide, ?_⟩
            rw [Nat.sub_self, Nat.add_zero]
            omega
    | trying nonce left =>
        obtain ⟨tried, ahead, rfl, rfl, within, few⟩ := near
        cases ahead with
        | zero => exact .inl rfl
        | succ ahead =>
            right
            -- Whether this nonce reaches does not matter: then the thread stops here.
            have together : tried + 1 + ahead = tried + (ahead + 1) := by omega
            have isStride : search.stride = UInt64.ofNat threads := by rw [stride, stands]
            rcases ThreadPhase.after_trying target search.stride search.done search.cancelled
                (walk threads index tried) left with
              ⟨-, isAfter⟩ | ⟨-, rfl, isAfter⟩ | ⟨rest, -, rfl, isAfter⟩
            · rw [isAfter]
              trivial
            · rw [isAfter, isStride, ← walk_succ]
              refine ⟨tried + 1, ahead, together, rfl, ?_⟩
              have positive : 0 < batchSize := by decide
              have oneBatch : ahead + 1 + (batchSize - 1 - 0) = ahead + batchSize := by omega
              rw [oneBatch, Nat.add_div_right ahead positive] at few
              omega
            · rw [isAfter, isStride, ← walk_succ]
              refine ⟨tried + 1, ahead, together, rfl, Nat.lt_of_succ_lt within, ?_⟩
              have sameBatch : ahead + (batchSize - 1 - rest)
                  = ahead + 1 + (batchSize - 1 - (rest + 1)) := by omega
              rw [sameBatch]
              omega
    | announcing | storing | finished => exact .inl trivial

theorem countdown_concludes :
    Countdown target (fun _ => True) (· = .finished) (Concludes target) where
  keeps _ _ := trivial
  arrived {phase} near := by
    cases phase with
    | checking | consulting => exact near.elim
    | trying => exact absurd near.2 (by decide)
    | announcing nonce | storing nonce => exact absurd near (Nat.not_succ_le_zero _)
    | finished => rfl
  turn {search phase turns} _ near := by
    cases phase with
    | checking | consulting => exact near.elim
    | trying nonce left =>
        right
        rw [ThreadPhase.after_trying_of_hit near.1]
        exact Nat.le_of_succ_le_succ near.2
    | announcing nonce =>
        right
        cases search.done with
        | true => trivial
        | false => exact Nat.le_of_succ_le_succ near
    | storing nonce => exact .inr trivial
    | finished => exact .inl rfl

/-- A number of turns that every turn lessens is a countdown. -/
theorem countdown_of_lessens {holds : Search → Prop} {turnsLeft : ThreadPhase → Nat}
    (keeps : ∀ {search} (event : Event), holds search → holds (search.react target event))
    (arrives : ∀ {phase}, turnsLeft phase = 0 → phase = .finished)
    (lessens : ∀ {search phase}, holds search → phase ≠ .finished →
      turnsLeft (phase.after target search.stride search.done search.cancelled)
        < turnsLeft phase) :
    Countdown target holds (· = .finished) (fun turns phase => turnsLeft phase ≤ turns) where
  keeps := keeps
  arrived few := arrives (Nat.le_zero.mp few)
  turn {search phase turns} stands few := by
    by_cases finished : phase = .finished
    · exact .inl finished
    · exact .inr (Nat.le_of_lt_succ ((lessens stands finished).trans_le few))

theorem countdown_found : Countdown target (·.done = true) (· = .finished)
    (fun turns phase => turnsOnceFound phase ≤ turns) := by
  apply countdown_of_lessens (fun _ => done_react)
  · intro phase none_left
    cases phase with
    | finished => rfl
    | _ => exact absurd none_left (Nat.succ_ne_zero _)
  · intro search phase up busy
    rw [up]
    cases phase with
    | checking nonce | announcing nonce | storing nonce => exact Nat.zero_lt_one
    | consulting nonce =>
        cases search.cancelled with
        | true => exact Nat.succ_pos _
        | false => exact Nat.lt_succ_self _
    | trying nonce left =>
        rcases ThreadPhase.after_trying target search.stride true search.cancelled nonce left with
          ⟨-, isAfter⟩ | ⟨-, rfl, isAfter⟩ | ⟨rest, -, rfl, isAfter⟩
        · rw [isAfter]
          exact Nat.le_add_left 2 left
        · rw [isAfter]
          exact Nat.lt_succ_self 1
        · rw [isAfter]
          exact Nat.lt_succ_self (rest + 2)
    | finished => exact absurd rfl busy

theorem countdown_givenUp : Countdown target (·.cancelled = true) (· = .finished)
    (fun turns phase => turnsOnceGivenUp phase ≤ turns) := by
  apply countdown_of_lessens (fun _ => cancelled_react)
  · intro phase none_left
    cases phase with
    | finished => rfl
    | _ => exact absurd none_left (Nat.succ_ne_zero _)
  · intro search phase givenUp busy
    rw [givenUp]
    cases phase with
    | checking nonce | announcing nonce =>
        cases search.done with
        | true => exact Nat.zero_lt_two
        | false => exact Nat.one_lt_two
    | consulting nonce | storing nonce => exact Nat.zero_lt_one
    | trying nonce left =>
        rcases ThreadPhase.after_trying target search.stride search.done true nonce left with
          ⟨-, isAfter⟩ | ⟨-, rfl, isAfter⟩ | ⟨rest, -, rfl, isAfter⟩
        · rw [isAfter]
          exact Nat.le_add_left 3 left
        · rw [isAfter]
          exact Nat.lt_succ_self 2
        · rw [isAfter]
          exact Nat.lt_succ_self (rest + 3)
    | finished => exact absurd rfl busy

theorem turnsOnceFound_le {phase : ThreadPhase} (onWalk : OnWalk target threads index phase) :
    turnsOnceFound phase ≤ batchSize + 2 := by
  cases onWalk with
  | trying count left within => exact Nat.add_le_add_right within.le 2
  | consulting => exact Nat.le_refl _
  | checking | announcing | storing => exact Nat.le_add_left 1 _
  | finished => exact Nat.zero_le _

theorem turnsOnceGivenUp_le {phase : ThreadPhase} (onWalk : OnWalk target threads index phase) :
    turnsOnceGivenUp phase ≤ batchSize + 2 := by
  cases onWalk with
  | trying count left within => exact Nat.add_le_add_right within 2
  | checking | announcing => exact Nat.le_add_left 2 _
  | consulting | storing => exact Nat.le_add_left 1 _
  | finished => exact Nat.zero_le _

/-- A thread that has come to a nonce that reaches has at most three turns left. -/
theorem concludes_of_reached {phase : ThreadPhase} (reached : Reached threads index hit phase)
    (hits : reaches target.root (walk threads index hit) target.threshold = true) :
    Concludes target 3 phase := by
  cases phase with
  | checking | consulting => exact reached.elim
  | trying nonce left => exact ⟨reached ▸ hits, Nat.le_refl 3⟩
  | announcing => exact Nat.le_succ 2
  | storing => exact Nat.le_add_left 1 2
  | finished => trivial

theorem nears_start (hit : Nat) (cancelled : Bool) (exists_thread : index < max threads 1) :
    Nears (max threads 1) index hit (hit + 2 * (hit / batchSize) + 2)
      ((start threads cancelled).phase index) := by
  rw [phase_start threads index cancelled exists_thread, ← walk_zero (max threads 1)]
  exact ⟨0, hit, Nat.zero_add hit, rfl, Nat.le_refl _⟩

end Thread

end Search

end AccountChains.Work
