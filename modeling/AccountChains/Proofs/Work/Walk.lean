import Mathlib.Data.Int.GCD
import Mathlib.Data.List.GetD
import Mathlib.Data.Nat.ModEq
import Mathlib.Tactic.Ring
import AccountChains.Work.Search

/-!
Contract: which nonces the threads of a search try, and what a search answers with.

Every nonce is on the walk of some thread, also if the number of threads does not divide
the number of nonces: some number of strides is the greatest common divisor of the two,
and the remainder of a nonce by it is the number of a thread.

Whatever the threads do in turn, each is on its walk, and none of the nonces that it has
left behind reaches. So whatever is stored is the first nonce on some walk that reaches,
and it is stored once all threads have finished.

Owns: the walks, what one step does to a thread and to the search, and the answer of a
search that is over. Does not own: that a search comes to its end.
-/

namespace AccountChains.Work

/-! ## The nonces of a thread -/

/-- The nonce that a thread of so many tries after `count` others. -/
def walk (threads index count : Nat) : UInt64 := UInt64.ofNat (index + count * threads)

section Walks

variable {threads index count : Nat}

theorem walk_zero (threads index : Nat) : walk threads index 0 = UInt64.ofNat index := by
  rw [walk, Nat.zero_mul, Nat.add_zero]

theorem walk_succ :
    walk threads index (count + 1) = walk threads index count + UInt64.ofNat threads := by
  rw [walk, walk, ← UInt64.ofNat_add, Nat.succ_mul, Nat.add_assoc]

/-- A thread on its own tries the nonces in their order. -/
theorem walk_single (nonce : UInt64) : walk 1 0 nonce.toNat = nonce := by
  rw [walk, Nat.zero_add, Nat.mul_one, UInt64.ofNat_toNat]

theorem walk_eq_iff (nonce : UInt64) :
    walk threads index count = nonce ↔
      index + count * threads ≡ nonce.toNat [MOD UInt64.size] := by
  rw [← UInt64.toNat_inj, walk, UInt64.toNat_ofNat', Nat.ModEq,
    Nat.mod_eq_of_lt (UInt64.toNat_lt_size nonce)]

/-- Some multiple of a stride is what the stride has in common with the number of nonces. -/
theorem exists_mul_modEq_gcd (threads : Nat) :
    ∃ factor, threads * factor ≡ threads.gcd UInt64.size [MOD UInt64.size] := by
  by_cases proper : threads.gcd UInt64.size < UInt64.size
  · obtain ⟨factor, -, multiple⟩ := Nat.exists_mul_mod_eq_gcd proper
    refine ⟨factor, ?_⟩
    rw [Nat.ModEq, multiple, Nat.mod_eq_of_lt proper]
  · refine ⟨0, ?_⟩
    have whole : threads.gcd UInt64.size = UInt64.size :=
      Nat.le_antisymm (Nat.gcd_le_right threads (by decide)) (Nat.le_of_not_lt proper)
    rw [whole, Nat.mul_zero, Nat.ModEq, Nat.mod_self, Nat.zero_mod]

/-- Every nonce is on the walk of some thread. -/
theorem exists_walk_eq (many : 0 < threads) (nonce : UInt64) :
    ∃ index < threads, ∃ count < UInt64.size, walk threads index count = nonce := by
  obtain ⟨factor, multiple⟩ := exists_mul_modEq_gcd threads
  -- Not more than the number of threads, so that every remainder by it is the number of one.
  let common := threads.gcd UInt64.size
  have positive : 0 < common := Nat.gcd_pos_of_pos_left _ many
  have isIndex : nonce.toNat % common < threads :=
    (Nat.mod_lt _ positive).trans_le (Nat.gcd_le_left _ many)
  let strides := factor * (nonce.toNat / common)
  refine ⟨nonce.toNat % common, isIndex, strides % UInt64.size, Nat.mod_lt _ (by decide), ?_⟩
  apply (walk_eq_iff nonce).mpr
  calc nonce.toNat % common + strides % UInt64.size * threads
      ≡ nonce.toNat % common + strides * threads [MOD UInt64.size] :=
        ((Nat.mod_modEq strides UInt64.size).mul_right threads).add_left _
    _ = nonce.toNat % common + threads * factor * (nonce.toNat / common) := by
        show _ + factor * (nonce.toNat / common) * threads = _
        ring
    _ ≡ nonce.toNat % common + common * (nonce.toNat / common) [MOD UInt64.size] :=
        (multiple.mul_right _).add_left _
    _ = nonce.toNat := Nat.mod_add_div _ _

end Walks

/-! ## What one step does to a thread -/

/-- None of the first nonces of a thread reaches. -/
def Missed (target : Target) (threads index count : Nat) : Prop :=
  ∀ earlier < count, reaches target.root (walk threads index earlier) target.threshold = false

/-- A nonce of a thread reaches, and none before it does. -/
structure FirstHit (target : Target) (threads index count : Nat) : Prop where
  hits : reaches target.root (walk threads index count) target.threshold = true
  missed : Missed target threads index count

/-- A thread is on its walk, and whatever it has tried did not reach. -/
inductive OnWalk (target : Target) (threads index : Nat) : ThreadPhase → Prop where
  | checking (count : Nat) (missed : Missed target threads index count) :
      OnWalk target threads index (.checking (walk threads index count))
  | consulting (count : Nat) (missed : Missed target threads index count) :
      OnWalk target threads index (.consulting (walk threads index count))
  | trying (count left : Nat) (within : left < ThreadPhase.batchSize)
      (missed : Missed target threads index count) :
      OnWalk target threads index (.trying (walk threads index count) left)
  | announcing {count : Nat} (first : FirstHit target threads index count) :
      OnWalk target threads index (.announcing (walk threads index count))
  | storing {count : Nat} (first : FirstHit target threads index count) :
      OnWalk target threads index (.storing (walk threads index count))
  | finished : OnWalk target threads index .finished

section Steps

variable {target : Target} {threads index count left : Nat} {phase : ThreadPhase}
  {nonce stride : UInt64} {done cancelled : Bool}

theorem ThreadPhase.after_trying_of_hit
    (hits : reaches target.root nonce target.threshold = true) :
    after target stride done cancelled (.trying nonce left) = .announcing nonce := by
  unfold after
  exact if_pos hits

/-- A try leads to the announcement of the nonce, to the end of the batch, or to the next one. -/
theorem ThreadPhase.after_trying (target : Target) (stride : UInt64) (done cancelled : Bool)
    (nonce : UInt64) (left : Nat) :
    reaches target.root nonce target.threshold = true ∧
        after target stride done cancelled (.trying nonce left) = .announcing nonce ∨
      reaches target.root nonce target.threshold = false ∧ left = 0 ∧
        after target stride done cancelled (.trying nonce left) = .checking (nonce + stride) ∨
      ∃ rest, reaches target.root nonce target.threshold = false ∧ left = rest + 1 ∧
        after target stride done cancelled (.trying nonce left)
          = .trying (nonce + stride) rest := by
  cases hits : reaches target.root nonce target.threshold with
  | true => exact .inl ⟨rfl, after_trying_of_hit hits⟩
  | false =>
      have misses : ¬ reaches target.root nonce target.threshold = true := by simp [hits]
      right
      cases left with
      | zero => exact .inl ⟨rfl, rfl, if_neg misses⟩
      | succ rest => exact .inr ⟨rest, rfl, rfl, if_neg misses⟩

theorem missed_zero : Missed target threads index 0 := by
  intro earlier before
  exact absurd before (Nat.not_lt_zero earlier)

theorem Missed.succ (missed : Missed target threads index count)
    (misses : reaches target.root (walk threads index count) target.threshold = false) :
    Missed target threads index (count + 1) := by
  intro earlier before
  rcases Nat.lt_succ_iff_lt_or_eq.mp before with earlierStill | rfl
  · exact missed earlier earlierStill
  · exact misses

/-- The first hit of a thread on its own is the least nonce that reaches. -/
theorem FirstHit.least (first : FirstHit target 1 0 count) {smaller : UInt64}
    (less : smaller < walk 1 0 count) :
    reaches target.root smaller target.threshold = false := by
  rw [← walk_single smaller]
  apply first.missed
  have isLess : smaller.toNat < count % UInt64.size := by
    rw [UInt64.lt_iff_toNat_lt, walk, Nat.zero_add, Nat.mul_one, UInt64.toNat_ofNat'] at less
    exact less
  exact isLess.trans_le (Nat.mod_le _ _)

theorem OnWalk.after (onWalk : OnWalk target threads index phase) (done cancelled : Bool) :
    OnWalk target threads index
      (phase.after target (UInt64.ofNat threads) done cancelled) := by
  cases onWalk with
  | checking count missed =>
      cases done with
      | true => exact .finished
      | false => exact .consulting count missed
  | consulting count missed =>
      cases cancelled with
      | true => exact .finished
      | false => exact .trying count _ (by decide) missed
  | trying count left within missed =>
      rcases ThreadPhase.after_trying target (UInt64.ofNat threads) done cancelled
          (walk threads index count) left with
        ⟨hits, isAfter⟩ | ⟨misses, -, isAfter⟩ | ⟨rest, misses, rfl, isAfter⟩
      · rw [isAfter]
        exact .announcing ⟨hits, missed⟩
      · rw [isAfter, ← walk_succ]
        exact .checking (count + 1) (missed.succ misses)
      · rw [isAfter, ← walk_succ]
        exact .trying (count + 1) rest (Nat.lt_of_succ_lt within) (missed.succ misses)
  | announcing first =>
      cases done with
      | true => exact .finished
      | false => exact .storing first
  | storing first => exact .finished
  | finished => exact .finished

/-- Only a thread that raises the flag goes on to store its nonce. -/
theorem ThreadPhase.announcing_of_after_storing
    (storing : phase.after target stride done cancelled = .storing nonce) :
    phase = .announcing nonce ∧ done = false := by
  unfold ThreadPhase.after at storing
  grind

/-- A thread finishes if it finds one of the flags up, or has stored its nonce. -/
theorem ThreadPhase.cause_of_after_finished
    (finished : phase.after target stride done cancelled = .finished) :
    done = true ∨ cancelled = true ∨ (∃ nonce, phase = .storing nonce) ∨ phase = .finished := by
  unfold ThreadPhase.after at finished
  grind

end Steps

/-! ## What one step does to a search -/

namespace Search

section Steps

variable {target : Target} {search : Search} {index probe : Nat}

theorem phase_of_length_le (beyond : search.threads.length ≤ index) :
    search.phase index = .finished := by
  rw [phase, List.getD_eq_default _ _ beyond]

theorem isOver_iff : search.isOver ↔ ∀ index, search.phase index = .finished := by
  rw [isOver, List.all_eq_true]
  constructor
  · intro allFinished index
    by_cases exists_thread : index < search.threads.length
    · rw [phase, List.getD_eq_getElem _ _ exists_thread]
      exact eq_of_beq (allFinished _ (List.getElem_mem exists_thread))
    · exact phase_of_length_le (Nat.le_of_not_lt exists_thread)
  · intro allFinished phase isThread
    obtain ⟨index, exists_thread, rfl⟩ := List.getElem_of_mem isThread
    have finished := allFinished index
    rw [Search.phase, List.getD_eq_getElem _ _ exists_thread] at finished
    exact beq_iff_eq.mpr finished

theorem phase_start (threads index : Nat) (cancelled : Bool)
    (exists_thread : index < max threads 1) :
    (start threads cancelled).phase index = .checking (UInt64.ofNat index) := by
  rw [phase, start, List.getD_eq_getElem _ _ (by simpa using exists_thread)]
  simp

@[simp] theorem length_step :
    (search.step target index).threads.length = search.threads.length := by
  simp [step]

theorem done_step (up : search.done = true) : (search.step target index).done = true := by
  simp [step, up]

/-- The thread that takes the step moves on. -/
theorem phase_step_self : (search.step target index).phase index
    = (search.phase index).after target search.stride search.done search.cancelled := by
  by_cases exists_thread : index < search.threads.length
  · simp [step, phase, exists_thread]
  · have beyond := Nat.le_of_not_lt exists_thread
    rw [phase_of_length_le beyond, phase_of_length_le (by simpa using beyond)]
    rfl

/-- The other threads stay where they are. -/
theorem phase_step_of_ne (other : probe ≠ index) :
    (search.step target index).phase probe = search.phase probe := by
  simp [step, phase, List.getElem?_set_ne (Ne.symm other)]

end Steps

/-- Some thread has found this nonce, before any other nonce of its own. -/
def Finds (target : Target) (threads : Nat) (nonce : UInt64) : Prop :=
  ∃ index < threads, ∃ count, FirstHit target threads index count ∧ walk threads index count = nonce

/-- All threads are on their walks, the flag is up once a thread is about to store its nonce, and
what is stored after that is what some thread has found. -/
structure Orderly (target : Target) (threads : Nat) (search : Search) : Prop where
  length_eq : search.threads.length = threads
  onWalk : ∀ index, OnWalk target threads index (search.phase index)
  raised : ∀ {index nonce}, search.phase index = .storing nonce → search.done = true
  stored : search.done = true →
    (∃ index nonce, search.phase index = .storing nonce) ∨ Finds target threads search.found
  stopped : ∀ {index}, index < threads → search.phase index = .finished →
    search.done = true ∨ search.cancelled = true

section Runs

variable {target : Target} {threads : Nat} {search : Search}

theorem orderly_start (target : Target) (threads : Nat) (cancelled : Bool) :
    Orderly target (max threads 1) (start threads cancelled) := by
  have checks (index : Nat) (exists_thread : index < max threads 1) :=
    phase_start threads index cancelled exists_thread
  have length_eq : (start threads cancelled).threads.length = max threads 1 := by simp [start]
  refine ⟨length_eq, ?_, ?_, nofun, ?_⟩
  · intro index
    by_cases exists_thread : index < max threads 1
    · rw [checks index exists_thread, ← walk_zero (max threads 1)]
      exact .checking 0 missed_zero
    · rw [phase_of_length_le (by omega)]
      exact .finished
  · intro index nonce storing
    by_cases exists_thread : index < max threads 1
    · rw [checks index exists_thread] at storing
      cases storing
    · rw [phase_of_length_le (by omega)] at storing
      cases storing
  · intro index exists_thread finished
    rw [checks index exists_thread] at finished
    cases finished

theorem Orderly.stride_eq (orderly : Orderly target threads search) :
    search.stride = UInt64.ofNat threads := by
  rw [stride, orderly.length_eq]

theorem Orderly.exists_thread (orderly : Orderly target threads search) {index : Nat}
    (busy : search.phase index ≠ .finished) : index < threads := by
  rw [← orderly.length_eq]
  apply Nat.lt_of_not_le
  intro beyond
  exact busy (phase_of_length_le beyond)

/-- What is stored is what a thread has found that was about to store it. -/
theorem Orderly.finds (orderly : Orderly target threads search) {index : Nat} {nonce : UInt64}
    (storing : search.phase index = .storing nonce) : Finds target threads nonce := by
  have onWalk := orderly.onWalk index
  have busy : search.phase index ≠ .finished := by simp [storing]
  have exists_thread := orderly.exists_thread busy
  rw [storing] at onWalk
  cases onWalk with
  | storing first => exact ⟨index, exists_thread, _, first, rfl⟩

/-- The flag is up, and whoever raised it is about to store its nonce or has done so. -/
theorem Orderly.stored_of_bystander (orderly : Orderly target threads search) {index : Nat}
    (wasUp : search.done = true) (same : (search.step target index).found = search.found)
    (other : ∀ nonce, search.phase index ≠ .storing nonce) :
    (∃ probe nonce, (search.step target index).phase probe = .storing nonce) ∨
      Finds target threads (search.step target index).found := by
  rcases orderly.stored wasUp with ⟨probe, nonce, storing⟩ | finds
  · left
    refine ⟨probe, nonce, ?_⟩
    have different : probe ≠ index := by
      rintro rfl
      exact other nonce storing
    rw [phase_step_of_ne different]
    exact storing
  · right
    rw [same]
    exact finds

theorem Orderly.stored_step (orderly : Orderly target threads search) (index : Nat)
    (up : (search.step target index).done = true) :
    (∃ probe nonce, (search.step target index).phase probe = .storing nonce) ∨
      Finds target threads (search.step target index).found := by
  cases isPhase : search.phase index with
  | storing nonce =>
      -- Whatever was stored before, this nonce replaces it, and it was found as well.
      right
      have found : (search.step target index).found = nonce := by
        simp [step, isPhase, ThreadPhase.stored?]
      rw [found]
      exact orderly.finds isPhase
  | announcing nonce =>
      cases wasUp : search.done with
      | true =>
          apply orderly.stored_of_bystander wasUp
          · simp [step, isPhase, ThreadPhase.stored?]
          · simp [isPhase]
      | false =>
          left
          refine ⟨index, nonce, ?_⟩
          rw [phase_step_self, isPhase, wasUp]
          rfl
  | checking | consulting | trying | finished =>
      apply orderly.stored_of_bystander
      · simpa [step, isPhase, ThreadPhase.announces] using up
      · simp [step, isPhase, ThreadPhase.stored?]
      · simp [isPhase]

theorem Orderly.step (orderly : Orderly target threads search) (index : Nat) :
    Orderly target threads (search.step target index) where
  length_eq := length_step.trans orderly.length_eq
  onWalk probe := by
    by_cases same : probe = index
    · rw [same, phase_step_self, orderly.stride_eq]
      exact (orderly.onWalk index).after _ _
    · rw [phase_step_of_ne same]
      exact orderly.onWalk probe
  raised {probe nonce} storing := by
    by_cases same : probe = index
    · rw [same, phase_step_self] at storing
      obtain ⟨announcing, -⟩ := ThreadPhase.announcing_of_after_storing storing
      simp [Search.step, announcing, ThreadPhase.announces]
    · rw [phase_step_of_ne same] at storing
      exact done_step (orderly.raised storing)
  stored := orderly.stored_step index
  stopped {probe} exists_thread finished := by
    have kept (stopped : search.done = true ∨ search.cancelled = true) :
        (search.step target index).done = true ∨
          (search.step target index).cancelled = true :=
      stopped.imp_left done_step
    apply kept
    by_cases same : probe = index
    · subst same
      rw [phase_step_self] at finished
      rcases ThreadPhase.cause_of_after_finished finished with
        up | cancelled | ⟨nonce, storing⟩ | wasFinished
      · exact .inl up
      · exact .inr cancelled
      · exact .inl (orderly.raised storing)
      · exact orderly.stopped exists_thread wasFinished
    · rw [phase_step_of_ne same] at finished
      exact orderly.stopped exists_thread finished

theorem Orderly.react (orderly : Orderly target threads search) (event : Event) :
    Orderly target threads (search.react target event) := by
  cases event with
  | turn index => exact orderly.step index
  | cancel =>
      exact
        { length_eq := orderly.length_eq
          onWalk := orderly.onWalk
          raised := orderly.raised
          stored := orderly.stored
          stopped := fun _ _ => .inr rfl }

theorem Orderly.run (orderly : Orderly target threads search) (events : List Event) :
    Orderly target threads (search.run target events) := by
  induction events generalizing search with
  | nil => exact orderly
  | cons event rest inductionHypothesis => exact inductionHypothesis (orderly.react event)

/-- Once the flag is up and all threads have finished, what some thread has found is stored. -/
theorem Orderly.finds_found (orderly : Orderly target threads search) (allFinished : search.isOver)
    (up : search.done = true) : Finds target threads search.found := by
  rcases orderly.stored up with ⟨index, nonce, storing⟩ | finds
  · rw [isOver_iff.mp allFinished index] at storing
    cases storing
  · exact finds

/-- The answer of a search that is over is what some thread has found. -/
theorem Orderly.finds_outcome (orderly : Orderly target threads search)
    (allFinished : search.isOver) {nonce : UInt64} (answer : search.outcome = .ok nonce) :
    Finds target threads nonce := by
  cases up : search.done with
  | true =>
      rw [outcome, if_pos up] at answer
      cases answer
      exact orderly.finds_found allFinished up
  | false =>
      rw [outcome, if_neg (by simp [up])] at answer
      cases answer

end Runs

end Search

end AccountChains.Work
