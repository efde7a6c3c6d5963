import AccountChains.Ledger.Session
import AccountChains.Proofs.Ledger.Reachable

/-!
Contract: the weights that stand in for those of a ledger.

A snapshot of weights stands in until a question is asked while the ledger has as many
blocks as the snapshot is for. From then on every question is answered with the weight
that the ledger keeps, also if blocks are undone again. Blocks alone do not bring this
about: if nobody asks while there are so many, and some are undone, the snapshot still
stands in.

Owns: what a question is answered with after any calls and questions. Does not own: the
weights that the ledger keeps.
-/

namespace AccountChains

open Ledger

/-- What is asked of a session: a call of the ledger, or the weight of a representative. -/
inductive Request where
  | call (call : Call)
  | weigh (representative : Account)

namespace Session

variable {σ : Type} [Store σ]

/-- From now on a snapshot stands in. -/
def standIn (weights : List (Account × Amount)) (maxBlocks : UInt64) (session : Session σ) :
    Session σ :=
  { session with weights := .ofList weights maxBlocks }

/-- The session after a request. -/
def after (constants : LedgerConstants) (session : Session σ) : Request → Session σ
  | .call (.process now hint block) => (session.process constants now hint block).2
  | .call (.rollback hash) => (session.rollback hash).2.2
  | .weigh representative => (session.weight session.database.current representative).2

/-- The session after several requests, one after another. -/
def afterAll (constants : LedgerConstants) (session : Session σ) (requests : List Request) :
    Session σ :=
  requests.foldl (after constants) session

def blockCount (session : Session σ) : Nat := (Store.counts session.database.current).blocks

/-- What the question for a weight is answered with. -/
def weighed (session : Session σ) (representative : Account) : Answer Amount :=
  (session.weight session.database.current representative).1

/-- The weight that the ledger keeps. -/
def live (session : Session σ) (representative : Account) : Answer Amount :=
  stored (Store.weight session.database.current representative)

/-- Some question was asked while the ledger had at least so many blocks. -/
def AskedAt (constants : LedgerConstants) (session : Session σ) (blocks : Nat)
    (requests : List Request) : Prop :=
  ∃ earlier representative later, requests = earlier ++ .weigh representative :: later ∧
    blocks ≤ (session.afterAll constants earlier).blockCount

/-! ## One request -/

section Steps

variable {constants : LedgerConstants} {session : Session σ} {requests : List Request}
  {blocks : Nat} {representative : Account}

/-- Only a question gives the snapshot up. -/
theorem weights_after_call (call : Call) :
    (session.after constants (.call call)).weights = session.weights := by
  cases call <;> rfl

/-- A question gives the snapshot up if the ledger has so many blocks. -/
theorem weights_after_weigh : (session.after constants (.weigh representative)).weights
    = if session.weights.maxBlocks.toNat ≤ session.blockCount
      then { session.weights with active := false } else session.weights := by
  by_cases full : session.weights.maxBlocks.toNat ≤ session.blockCount
  · have notBelow : ¬ (Store.counts session.database.current).blocks
        < session.weights.maxBlocks.toNat := Nat.not_lt.mpr full
    rw [if_pos full]
    simp only [after, Session.weight, Ledger.weight, if_neg notBelow]
    split
    · rfl
    · next inactive => rw [← eq_false_of_ne_true inactive]
  · have below : (Store.counts session.database.current).blocks
        < session.weights.maxBlocks.toNat := Nat.lt_of_not_le full
    rw [if_neg full]
    simp only [after, Session.weight, Ledger.weight, if_pos below]
    repeat' split
    all_goals rfl

theorem weighed_eq : session.weighed representative
    = if session.weights.active ∧ session.blockCount < session.weights.maxBlocks.toNat
      then (session.weights.weights.get? representative).elim (session.live representative) .ok
      else session.live representative := by
  simp only [weighed, Session.weight, Ledger.weight, blockCount, live]
  cases session.weights.active with
  | false => simp
  | true =>
      simp only [true_and, if_true]
      split
      · cases session.weights.weights.get? representative <;> rfl
      · rfl

/-! ## Any requests -/

theorem afterAll_concat (request : Request) :
    session.afterAll constants (requests ++ [request])
      = (session.afterAll constants requests).after constants request := by
  simp only [afterAll, List.foldl_append, List.foldl_cons, List.foldl_nil]

theorem askedAt_concat {request : Request} :
    session.AskedAt constants blocks (requests ++ [request]) ↔
      session.AskedAt constants blocks requests ∨
        (∃ representative, request = .weigh representative) ∧
          blocks ≤ (session.afterAll constants requests).blockCount := by
  constructor
  · rintro ⟨earlier, representative, later, split, full⟩
    rcases List.eq_nil_or_concat later with rfl | ⟨front, last, rfl⟩
    · obtain ⟨rfl, same⟩ := List.append_inj' split rfl
      exact .inr ⟨⟨representative, List.head_eq_of_cons_eq same⟩, full⟩
    · rw [List.concat_eq_append, ← List.cons_append, ← List.append_assoc] at split
      obtain ⟨rfl, -⟩ := List.append_inj' split rfl
      exact .inl ⟨earlier, representative, front, rfl, full⟩
  · rintro (⟨earlier, representative, later, rfl, full⟩ | ⟨⟨representative, rfl⟩, full⟩)
    · exact ⟨earlier, representative, later ++ [request], by simp, full⟩
    · exact ⟨requests, representative, [], rfl, full⟩

/-- The snapshot keeps its weights, and stands in until it is given up. -/
structure Retains (constants : LedgerConstants) (session : Session σ) (requests : List Request)
    (later : Session σ) : Prop where
  weights : later.weights.weights = session.weights.weights
  maxBlocks : later.weights.maxBlocks = session.weights.maxBlocks
  active_iff : later.weights.active = true ↔ session.weights.active = true ∧
    ¬ session.AskedAt constants session.weights.maxBlocks.toNat requests

variable (constants session requests) in
theorem retains_afterAll :
    Retains constants session requests (session.afterAll constants requests) := by
  -- From the end, since whether a question gives up depends on the requests before it.
  induction requests using List.reverseRecOn with
  | nil =>
      refine ⟨rfl, rfl, (and_iff_left ?_).symm⟩
      rintro ⟨earlier, representative, later, split, -⟩
      simp at split
  | append_singleton requests request inductionHypothesis =>
      obtain ⟨weights, maxBlocks, active_iff⟩ := inductionHypothesis
      rw [afterAll_concat]
      cases request with
      | call call =>
          have unasked : ¬ ∃ representative, Request.call call = .weigh representative := by simp
          refine ⟨?_, ?_, ?_⟩ <;> rw [weights_after_call]
          · exact weights
          · exact maxBlocks
          · rw [active_iff, askedAt_concat]
            simp only [unasked, false_and, or_false]
      | weigh representative =>
          have asked : ∃ other, Request.weigh representative = .weigh other := ⟨_, rfl⟩
          by_cases full : session.weights.maxBlocks.toNat
              ≤ (session.afterAll constants requests).blockCount
          · refine ⟨?_, ?_, ?_⟩ <;> rw [weights_after_weigh, maxBlocks, if_pos full]
            · exact weights
            · exact maxBlocks
            · rw [askedAt_concat]
              simp only [Bool.false_eq_true, false_iff, not_and, not_not]
              exact fun _ => .inr ⟨asked, full⟩
          · refine ⟨?_, ?_, ?_⟩ <;> rw [weights_after_weigh, maxBlocks, if_neg full]
            · exact weights
            · exact maxBlocks
            · rw [active_iff, askedAt_concat]
              simp only [full, and_false, or_false]

end Steps

/-! ## Answers -/

/-- Of several weights for one account the last one counts. -/
theorem get?_ofList (weights : List (Account × Amount)) (maxBlocks : UInt64)
    (representative : Account) :
    (WeightSnapshot.ofList weights maxBlocks).weights.get? representative
      = weights.reverse.lookup representative := by
  unfold WeightSnapshot.ofList
  dsimp only
  induction weights using List.reverseRecOn with
  | nil => rfl
  | append_singleton weights entry inductionHypothesis =>
      obtain ⟨account, weight⟩ := entry
      rw [List.foldl_append, List.reverse_append, List.foldl_cons, List.foldl_nil,
        Table.get?_insert, inductionHypothesis]
      simp only [List.reverse_singleton, List.singleton_append, List.lookup_cons]
      by_cases same : representative = account
      · simp only [same, if_true, beq_self_eq_true]
      · simp only [if_neg same, beq_false_of_ne same]

/-- A question is answered with the weight that the ledger keeps, if a question was asked before
while the ledger had as many blocks as the snapshot is for, whatever has been undone since. If not,
the snapshot answers for its representatives whenever the ledger has fewer blocks than that,
however many it has had. -/
theorem given_up_by_question (constants : LedgerConstants) (session : Session σ)
    (weights : List (Account × Amount)) (maxBlocks : UInt64) (requests : List Request)
    (representative : Account) :
    let start := session.standIn weights maxBlocks
    let now := start.afterAll constants requests
    (start.AskedAt constants maxBlocks.toNat requests →
      now.weighed representative = now.live representative) ∧
    (maxBlocks.toNat ≤ now.blockCount →
      now.weighed representative = now.live representative) ∧
    (¬ start.AskedAt constants maxBlocks.toNat requests → now.blockCount < maxBlocks.toNat →
      now.weighed representative
        = (weights.reverse.lookup representative).elim (now.live representative) .ok) := by
  intro start now
  obtain ⟨sameWeights, sameCount, active_iff⟩ := retains_afterAll constants start requests
  have isStart : start.weights = .ofList weights maxBlocks := rfl
  rw [isStart] at sameWeights sameCount active_iff
  have answer : now.weighed representative = _ := weighed_eq
  rw [sameWeights, sameCount, get?_ofList] at answer
  refine ⟨fun asked => ?_, fun full => ?_, fun unasked below => ?_⟩
  · rw [answer, if_neg]
    exact fun stands => (active_iff.mp stands.1).2 asked
  · rw [answer, if_neg]
    exact fun stands => Nat.not_lt.mpr full stands.2
  · rw [answer, if_pos ⟨active_iff.mpr ⟨rfl, unasked⟩, below⟩]

section Development

open LedgerConstants

/-- The development ledger, and weights for a ledger of fewer than two blocks. -/
def devStandIn : Session Tables :=
  (ofState dev (started dev .zero .empty none)).standIn [(dev.genesisAccount, .ofNat 5)] 2

/-- Two blocks are there for a while, but nobody asks: when one is undone, the snapshot goes on
standing in. -/
theorem devStandIn_not_given_up :
    let full := devStandIn.after dev (.call (.process .zero .valid devSend))
    let thinned := full.after dev (.call (.rollback devSend.hash))
    devStandIn.weights.maxBlocks.toNat ≤ full.blockCount ∧
      thinned.weighed dev.genesisAccount = .ok (.ofNat 5) ∧
      thinned.live dev.genesisAccount = .ok .greatest ∧
      thinned.weighed dev.genesisAccount ≠ thinned.live dev.genesisAccount := by
  decide +kernel

end Development

end Session

end AccountChains
