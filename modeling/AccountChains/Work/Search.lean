import AccountChains.Work.Basic

/-!
Contract: the search for a nonce by several threads.

Thread `i` of `T` tries the nonces `i`, `i + T`, `i + 2 T`, … modulo `2 ^ 64`.
Before each batch of nonces it looks whether a nonce has been found, and then whether
the search was given up. A thread that finds a nonce first raises the flag `done`; only
the one that raised it stores its nonce, in a step of its own. Each look at a flag, each
try and each change of what the threads share is one step of one thread, and the search
may be given up between any two of them, so a list of events is an interleaving.
`Search.rounds` is the one in which the threads take turns.

Owns: the machine and its outcome. Does not own: the value of a nonce.
-/

namespace AccountChains.Work

/-- Why a search ends without a nonce. -/
inductive SearchError where
  | cancelled
deriving DecidableEq, Repr

def SearchError.message : SearchError → String
  | .cancelled => "work generation cancelled"

structure Target where
  root : Root
  threshold : UInt64
deriving DecidableEq, Repr

inductive ThreadPhase where
  /-- About to look whether a nonce has been found; the next one to try is `nonce`. -/
  | checking (nonce : UInt64)
  /-- About to look whether the search was given up; the next one to try is `nonce`. -/
  | consulting (nonce : UInt64)
  /-- About to try `nonce`; `left` more nonces follow in this batch. -/
  | trying (nonce : UInt64) (left : Nat)
  /-- `nonce` reaches; about to raise the flag. -/
  | announcing (nonce : UInt64)
  /-- This thread raised the flag; about to store its nonce. -/
  | storing (nonce : UInt64)
  | finished
deriving DecidableEq, Repr

namespace ThreadPhase

/-- Nonces a thread tries between two looks at the flags. -/
def batchSize : Nat := 4096

/-- Where one step takes a thread that finds the flags like this. -/
def after (target : Target) (stride : UInt64) (done cancelled : Bool) : ThreadPhase → ThreadPhase
  | .checking nonce => if done then .finished else .consulting nonce
  | .consulting nonce => if cancelled then .finished else .trying nonce (batchSize - 1)
  | .trying nonce left =>
    if reaches target.root nonce target.threshold then .announcing nonce
    else match left with
      | 0 => .checking (nonce + stride)
      | left + 1 => .trying (nonce + stride) left
  | .announcing nonce => if done then .finished else .storing nonce
  | .storing _ | .finished => .finished

/-- Whether the next step raises the flag, if it is not up already. -/
def announces : ThreadPhase → Bool
  | .announcing _ => true
  | _ => false

/-- What the next step stores. -/
def stored? : ThreadPhase → Option UInt64
  | .storing nonce => some nonce
  | _ => none

end ThreadPhase

/-- The shared flags and the threads. -/
structure Search where
  threads : List ThreadPhase
  done : Bool
  cancelled : Bool
  found : UInt64
deriving DecidableEq, Repr

namespace Search

/-- What happens while a search is on. -/
inductive Event where
  /-- A thread takes a step. -/
  | turn (index : Nat)
  /-- The search is given up. -/
  | cancel
deriving DecidableEq, Repr

def start (threads : Nat) (cancelled : Bool) : Search where
  threads := (List.range (max threads 1)).map fun index => .checking (UInt64.ofNat index)
  done := false
  cancelled := cancelled
  found := 0

def stride (search : Search) : UInt64 := UInt64.ofNat search.threads.length

/-- Where a thread is; one that does not exist has nothing left to do. -/
def phase (search : Search) (index : Nat) : ThreadPhase := search.threads.getD index .finished

/-- One step of one thread. -/
def step (target : Target) (search : Search) (index : Nat) : Search :=
  let phase := search.phase index
  { search with
    threads := search.threads.set index
      (phase.after target search.stride search.done search.cancelled)
    done := search.done || phase.announces
    found := phase.stored?.getD search.found }

def react (target : Target) (search : Search) : Event → Search
  | .turn index => search.step target index
  | .cancel => { search with cancelled := true }

/-- An interleaving of steps. -/
def run (target : Target) (search : Search) (events : List Event) : Search :=
  events.foldl (react target) search

/-- Whether all threads have finished. -/
def isOver (search : Search) : Bool := search.threads.all (· == .finished)

/-- What the caller gets once all threads have finished. -/
def outcome (search : Search) : Except SearchError UInt64 :=
  if search.done then .ok search.found else .error .cancelled

/-- Each thread takes one step. -/
def round (threads : Nat) : List Event := (List.range threads).map .turn

/-- Let the threads take turns for at most `count` rounds. -/
def rounds (target : Target) : (count : Nat) → Search → Search
  | 0, search => search
  | count + 1, search =>
    if search.isOver then search
    else rounds target count (run target search (round search.threads.length))

/-- Rounds in which a thread tries all nonces, looks at both flags before each batch,
raises the flag and stores its nonce, and in which the others then end their batches. -/
def enoughRounds : Nat :=
  UInt64.size + 2 * (UInt64.size / ThreadPhase.batchSize) + ThreadPhase.batchSize + 4

end Search

/-- Look for a nonce that reaches the threshold. A threshold of zero is reached by nonce
zero, without a search. The rounds are enough for every search that has an end: where no
nonce reaches and nobody gives the search up, it has none. -/
def generate (threads : Nat) (cancelled : Bool) (target : Target) : Except SearchError UInt64 :=
  if target.threshold = 0 then .ok 0
  else (Search.rounds target Search.enoughRounds (Search.start threads cancelled)).outcome

end AccountChains.Work
