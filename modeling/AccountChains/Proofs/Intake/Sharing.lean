import Mathlib.Logic.Relation
import AccountChains.Intake.Pool
import AccountChains.Proofs.Block.Identity
import AccountChains.Proofs.Table

/-!
Contract: equal blocks in flight share one copy.

Holders make copies of blocks, pass them on, let go of them and offer them to an
interner, in any order. An offer is answered with a copy of the block that was offered.
While anybody holds a copy that some offer was answered with, every offer of an equal
block is answered with that very copy. So nobody ever holds two such copies of one
block.

The reason is that the entry of a copy stays while the copy is held: an offer only
replaces the entry of a copy that nobody holds, and a sweep removes no others. A copy
that nobody holds stays so, since no number is given out twice.

Owns: which blocks a digest tells apart, what one offer does to the entries, and the
invariant of a pool. Does not own: when entries of copies that nobody holds are removed.
-/

namespace AccountChains

namespace Interner

/-! ## What a digest tells apart -/

/-- What the digest of a block is taken from. -/
def digestInput (block : Block) : Bytes :=
  block.hash.toBytes ++ block.signature.toBytes ++ Bytes.littleEndian 8 block.work.toNat

theorem digest_eq (block : Block) : digest block = Blake2b.digest256 (digestInput block) := rfl

/-- The hash, the signature and the work of a block are read off what its digest is taken from. -/
theorem parts_of_digestInput {first second : Block}
    (sameInput : digestInput first = digestInput second) :
    first.hash = second.hash ∧ first.signature = second.signature ∧ first.work = second.work := by
  obtain ⟨sameFront, sameWork⟩ := List.append_inj sameInput (by simp)
  obtain ⟨sameHash, sameSignature⟩ := List.append_inj sameFront (by simp)
  refine ⟨Identifier.toBytes_injective sameHash, ?_, ?_⟩
  · rw [← Signature.ofBytes_toBytes first.signature, sameSignature, Signature.ofBytes_toBytes]
  · have small (work : UInt64) : work.toNat % Bytes.span 8 = work.toNat :=
      Nat.mod_eq_of_lt work.toNat_lt
    have sameNumber := congrArg Bytes.ofLittleEndian sameWork
    rw [Bytes.ofLittleEndian_littleEndian, Bytes.ofLittleEndian_littleEndian, small, small]
      at sameNumber
    exact UInt64.toNat_inj.mp sameNumber

/-- Of these blocks, those with the same hash, signature and work are the same, and those that
differ in one of the three have different digests. -/
structure Distinguishes (blocks : Set Block) : Prop where
  known : ∀ {first second}, first ∈ blocks → second ∈ blocks → first.hash = second.hash →
    first.signature = second.signature → first.work = second.work → first = second
  apart : ∀ {first second}, first ∈ blocks → second ∈ blocks →
    Blake2b.Apart (digestInput first) (digestInput second)

theorem Distinguishes.eq_of_digest {blocks : Set Block} {first second : Block}
    (distinguishes : Distinguishes blocks) (isFirst : first ∈ blocks) (isSecond : second ∈ blocks)
    (same : digest first = digest second) : first = second := by
  rw [digest_eq, digest_eq] at same
  obtain ⟨sameHash, sameSignature, sameWork⟩ :=
    parts_of_digestInput (distinguishes.apart isFirst isSecond same)
  exact distinguishes.known isFirst isSecond sameHash sameSignature sameWork

/-! ## One offer -/

/-- How an offer is answered: with the copy that has the entry if it is held, and else with the
offered one, which then has the entry. -/
inductive Answers (isHeld : Handle → Bool) (offered : Handle) (interner : Interner) :
    Handle × Interner → Prop where
  | shares {shared : Handle} (found : interner.entries.get? (digest offered.block) = some shared)
      (held : isHeld shared) : Answers isHeld offered interner (shared, interner)
  | enters (free : ∀ shared, interner.entries.get? (digest offered.block) = some shared →
      isHeld shared = false) :
      Answers isHeld offered interner (offered, interner.enter isHeld offered)

section Offers

variable {isHeld : Handle → Bool} {offered shared : Handle} {interner : Interner}
  {key : BitVec 256}

variable (isHeld offered interner) in
theorem answers_intern : Answers isHeld offered interner (interner.intern isHeld offered) := by
  unfold intern
  split
  · next shared found =>
      split
      · next held => exact .shares found held
      · next dead =>
          refine .enters fun other otherFound => ?_
          obtain rfl := Option.some.inj (found.symm.trans otherFound)
          exact eq_false_of_ne_true dead
  · next absent => exact .enters fun shared found => nomatch absent.symm.trans found

/-- Whatever has an entry had it before, or was offered. -/
theorem of_get?_enter (found : (interner.enter isHeld offered).entries.get? key = some shared) :
    key = digest offered.block ∧ shared = offered ∨
      key ≠ digest offered.block ∧ interner.entries.get? key = some shared := by
  have entered : (interner.entries.insert (digest offered.block) offered).get? key
      = some shared := by
    unfold enter at found
    dsimp only at found
    split at found
    · rw [sweep, Table.get?_restrict, Option.filter_eq_some_iff] at found
      exact found.1
    · exact found
  rw [Table.get?_insert] at entered
  split at entered
  · next same => exact .inl ⟨same, (Option.some.inj entered).symm⟩
  · next other => exact .inr ⟨other, entered⟩

/-- A sweep removes no entry of a copy that is held, or that is just being offered. -/
theorem get?_enter (inserted : (interner.entries.insert (digest offered.block) offered).get? key
      = some shared) (kept : shared = offered ∨ isHeld shared) :
    (interner.enter isHeld offered).entries.get? key = some shared := by
  unfold enter
  dsimp only
  split
  · rw [sweep, Table.get?_restrict, Option.filter_eq_some_iff]
    refine ⟨inserted, ?_⟩
    rcases kept with rfl | held
    · simp
    · simp [held]
  · exact inserted

theorem get?_enter_self :
    (interner.enter isHeld offered).entries.get? (digest offered.block) = some offered :=
  get?_enter (Table.get?_insert_self _ _ _) (.inl rfl)

theorem get?_enter_of_ne (other : key ≠ digest offered.block)
    (found : interner.entries.get? key = some shared) (held : isHeld shared) :
    (interner.enter isHeld offered).entries.get? key = some shared :=
  get?_enter ((Table.get?_insert_of_ne _ other _).trans found) (.inr held)

variable {result : Handle × Interner} (answers : Answers isHeld offered interner result)

include answers

/-- The entry of a copy that is held stays, whatever is offered. -/
theorem Answers.keeps (found : interner.entries.get? key = some shared) (held : isHeld shared) :
    result.2.entries.get? key = some shared := by
  cases answers with
  | shares => exact found
  | enters free =>
      refine get?_enter_of_ne ?_ found held
      rintro rfl
      simp [free shared found] at held

/-- The answer has the entry. -/
theorem Answers.files : result.2.entries.get? (digest offered.block) = some result.1 := by
  cases answers with
  | shares found => exact found
  | enters => exact get?_enter_self

/-- The answer is held by somebody, at least by whoever offers it. -/
theorem Answers.eq_or_held : result.1 = offered ∨ isHeld result.1 := by
  cases answers with
  | shares _ held => exact .inr held
  | enters => exact .inl rfl

/-- The answer was offered, or it had the entry before. -/
theorem Answers.eq_or_found :
    result.1 = offered ∨ interner.entries.get? (digest offered.block) = some result.1 := by
  cases answers with
  | shares found => exact .inr found
  | enters => exact .inl rfl

/-- Every entry was there before, or is that of the answer. -/
theorem Answers.of_get? (found : result.2.entries.get? key = some shared) :
    key = digest offered.block ∧ shared = result.1 ∨ interner.entries.get? key = some shared := by
  cases answers with
  | shares => exact .inr found
  | enters => exact (of_get?_enter found).imp_right And.right

end Offers

end Interner

/-! ## Pools -/

namespace Pool

/-- A holder makes a copy of a block and keeps it, without offering it. -/
def copy (holder : Nat) (block : Block) (pool : Pool) : Pool :=
  { pool with copies := pool.copies + 1 }.keep holder ⟨pool.copies, block⟩

/-- Offer a copy that somebody holds; the answer is the copy to use. -/
def offerAgain (handle : Handle) (pool : Pool) : Handle × Pool :=
  let (shared, interner) := pool.interner.intern pool.isHeld handle
  (shared, { pool with interner })

/-- A block is offered in a copy of its own or in one that is held, and answered. -/
inductive Offers (pool : Pool) : Block → Handle → Pool → Prop where
  | fresh (block : Block) : Offers pool block (pool.offer block).1 (pool.offer block).2
  | held {handle : Handle} (isHeld : pool.isHeld handle) :
      Offers pool handle.block (pool.offerAgain handle).1 (pool.offerAgain handle).2

section Holding

variable {pool : Pool} {holder : Nat} {handle other : Handle}

theorem isHeld_iff : pool.isHeld handle ↔ ∃ holder, (holder, handle) ∈ pool.kept := by
  simp [isHeld]

theorem isHeld_of_release (held : (pool.release holder).isHeld handle) : pool.isHeld handle := by
  obtain ⟨other, kept⟩ := isHeld_iff.mp held
  exact isHeld_iff.mpr ⟨other, (List.mem_filter.mp kept).1⟩

theorem eq_or_isHeld_of_keep (held : (pool.keep holder other).isHeld handle) :
    handle = other ∨ pool.isHeld handle := by
  obtain ⟨keeper, kept⟩ := isHeld_iff.mp held
  rcases List.mem_cons.mp kept with same | earlier
  · exact .inl (Prod.ext_iff.mp same).2
  · exact .inr (isHeld_of_release (isHeld_iff.mpr ⟨keeper, earlier⟩))

end Holding

end Pool

/-- A pool with the copies that offers have been answered with. -/
structure Lending where
  pool : Pool
  answers : List Handle

namespace Lending

open Interner

/-- What the holders of a pool do: make a copy, pass one on, let go of one, or offer one of these
blocks, and then keep the answer or not. -/
inductive Next (blocks : Set Block) : Lending → Lending → Prop where
  | copied {pool : Pool} {answers : List Handle} (holder : Nat) (block : Block) :
      Next blocks ⟨pool, answers⟩ ⟨pool.copy holder block, answers⟩
  | passed {pool : Pool} {answers : List Handle} {handle : Handle} (holder : Nat)
      (held : pool.isHeld handle) : Next blocks ⟨pool, answers⟩ ⟨pool.keep holder handle, answers⟩
  | released {pool : Pool} {answers : List Handle} (holder : Nat) :
      Next blocks ⟨pool, answers⟩ ⟨pool.release holder, answers⟩
  | dropped {pool next : Pool} {answers : List Handle} {block : Block} {answer : Handle}
      (offerable : block ∈ blocks) (offers : pool.Offers block answer next) :
      Next blocks ⟨pool, answers⟩ ⟨next, answer :: answers⟩
  | kept {pool next : Pool} {answers : List Handle} {block : Block} {answer : Handle}
      (holder : Nat) (offerable : block ∈ blocks) (offers : pool.Offers block answer next) :
      Next blocks ⟨pool, answers⟩ ⟨next.keep holder answer, answer :: answers⟩

/-- Any number of such steps, from the empty pool. -/
def Reached (blocks : Set Block) (lending : Lending) : Prop :=
  Relation.ReflTransGen (Next blocks) ⟨.empty, []⟩ lending

/-- A copy that some offer was answered with, and that somebody holds. -/
def Lives (lending : Lending) (handle : Handle) : Prop :=
  handle ∈ lending.answers ∧ lending.pool.isHeld handle

/-- Numbers are not given out twice, entries are under the digests of their blocks, and every copy
that lives has its entry. -/
structure Ordered (blocks : Set Block) (lending : Lending) : Prop where
  numbered : ∀ {handle}, lending.pool.isHeld handle → handle.number < lending.pool.copies
  given : ∀ {handle}, handle ∈ lending.answers → handle.number < lending.pool.copies
  named : ∀ {key handle}, lending.pool.interner.entries.get? key = some handle →
    handle.block ∈ blocks ∧ digest handle.block = key
  filed : ∀ {handle}, lending.Lives handle →
    lending.pool.interner.entries.get? (digest handle.block) = some handle

/-! ## Any run -/

section Steps

variable {blocks : Set Block} {pool after : Pool} {answers : List Handle} {block : Block}
  {answer : Handle}

/-- An offer is answered by the interner; nobody gets hold of anything yet, and the answer is not
new to the pool. -/
structure Answered (pool : Pool) (block : Block) (answer : Handle) (after : Pool) : Prop where
  answers : ∃ offered, offered.block = block ∧
    Answers pool.isHeld offered pool.interner (answer, after.interner)
  held : ∀ {handle}, after.isHeld handle = pool.isHeld handle
  grows : pool.copies ≤ after.copies
  given : answer.number < after.copies

/-- No offer can be answered with a copy whose number is still to be given out. -/
theorem answered_of_offers (numbered : ∀ {handle}, pool.isHeld handle →
      handle.number < pool.copies) (offers : pool.Offers block answer after) :
    Answered pool block answer after := by
  cases offers with
  | fresh =>
      have answers := answers_intern pool.isHeld ⟨pool.copies, block⟩ pool.interner
      refine ⟨⟨_, rfl, answers⟩, rfl, Nat.le_succ _, Nat.lt_succ_of_le ?_⟩
      rcases answers.eq_or_held with same | held
      · exact (congrArg Handle.number same).le
      · exact (numbered held).le
  | @held handle isHeld =>
      have answers := answers_intern pool.isHeld handle pool.interner
      refine ⟨⟨_, rfl, answers⟩, rfl, le_rfl, ?_⟩
      rcases answers.eq_or_held with same | held
      · exact (congrArg Handle.number same).trans_lt (numbered isHeld)
      · exact numbered held

/-- Letting go of copies, and getting hold of a copy that is already held, is in order. -/
theorem Ordered.of_held (ordered : Ordered blocks ⟨pool, answers⟩)
    (sameInterner : after.interner = pool.interner) (sameCopies : after.copies = pool.copies)
    (held : ∀ {handle}, after.isHeld handle → pool.isHeld handle) :
    Ordered blocks ⟨after, answers⟩ where
  numbered isHeld := sameCopies ▸ ordered.numbered (held isHeld)
  given member := sameCopies ▸ ordered.given member
  named found := ordered.named (sameInterner ▸ found)
  filed lives := sameInterner ▸ ordered.filed ⟨lives.1, held lives.2⟩

/-- Whoever gets hold of an answer holds a copy that has its entry. -/
theorem Ordered.keep {handle : Handle} (ordered : Ordered blocks ⟨pool, answers⟩) (holder : Nat)
    (given : handle ∈ answers)
    (files : pool.interner.entries.get? (digest handle.block) = some handle) :
    Ordered blocks ⟨pool.keep holder handle, answers⟩ where
  numbered held := by
    rcases Pool.eq_or_isHeld_of_keep held with rfl | earlier
    · exact ordered.given given
    · exact ordered.numbered earlier
  given := ordered.given
  named := ordered.named
  filed lives := by
    rcases Pool.eq_or_isHeld_of_keep lives.2 with rfl | earlier
    · exact files
    · exact ordered.filed ⟨lives.1, earlier⟩

/-- A new copy is not one that an offer was answered with. -/
theorem Ordered.copy (ordered : Ordered blocks ⟨pool, answers⟩) (holder : Nat) (block : Block) :
    Ordered blocks ⟨pool.copy holder block, answers⟩ where
  numbered held := by
    rcases Pool.eq_or_isHeld_of_keep held with rfl | earlier
    · exact Nat.lt_succ_self _
    · exact Nat.lt_succ_of_lt (ordered.numbered earlier)
  given member := Nat.lt_succ_of_lt (ordered.given member)
  named := ordered.named
  filed lives := by
    rcases Pool.eq_or_isHeld_of_keep lives.2 with rfl | earlier
    · exact absurd (ordered.given lives.1) (Nat.lt_irrefl _)
    · exact ordered.filed ⟨lives.1, earlier⟩

section Offering

variable (ordered : Ordered blocks ⟨pool, answers⟩) (offers : pool.Offers block answer after)

include ordered offers

theorem Ordered.files : after.interner.entries.get? (digest block) = some answer := by
  obtain ⟨⟨offered, rfl, answered⟩, -⟩ := answered_of_offers ordered.numbered offers
  exact answered.files

/-- The answer to an offer is a copy of the block that was offered. -/
theorem Ordered.block_eq (distinguishes : Distinguishes blocks) (offerable : block ∈ blocks) :
    answer.block = block := by
  obtain ⟨⟨offered, rfl, answered⟩, -⟩ := answered_of_offers ordered.numbered offers
  rcases answered.eq_or_found with same | found
  · exact congrArg Handle.block same
  · obtain ⟨known, same⟩ := ordered.named found
    exact distinguishes.eq_of_digest known offerable same

/-- The answer to an offer is the copy of the block that lives, if there is one. -/
theorem Ordered.recalls {shared : Handle} (lives : Lives ⟨pool, answers⟩ shared)
    (same : shared.block = block) : answer = shared := by
  obtain ⟨⟨offered, -, answered⟩, -⟩ := answered_of_offers ordered.numbered offers
  have kept := answered.keeps (ordered.filed lives) lives.2
  rw [same, ordered.files offers] at kept
  exact Option.some.inj kept

theorem Ordered.offer (distinguishes : Distinguishes blocks) (offerable : block ∈ blocks) :
    Ordered blocks ⟨after, answer :: answers⟩ := by
  have isBlock := ordered.block_eq offers distinguishes offerable
  obtain ⟨⟨offered, rfl, answered⟩, held, grows, given⟩ :=
    answered_of_offers ordered.numbered offers
  exact
    { numbered := fun isHeld => (ordered.numbered (held ▸ isHeld)).trans_le grows
      given := fun member => by
        rcases List.mem_cons.mp member with rfl | earlier
        · exact given
        · exact (ordered.given earlier).trans_le grows
      named := fun found => by
        rcases answered.of_get? found with ⟨rfl, rfl⟩ | before
        · exact ⟨isBlock ▸ offerable, congrArg digest isBlock⟩
        · exact ordered.named before
      filed := fun {handle} lives => by
        rcases List.mem_cons.mp lives.1 with rfl | earlier
        · exact isBlock ▸ answered.files
        · have isHeld : pool.isHeld handle := held ▸ lives.2
          exact answered.keeps (ordered.filed ⟨earlier, isHeld⟩) isHeld }

end Offering

variable {lending later : Lending}

theorem Ordered.next (distinguishes : Distinguishes blocks) (ordered : Ordered blocks lending)
    (step : Next blocks lending later) : Ordered blocks later := by
  cases step with
  | copied holder block => exact ordered.copy holder block
  | passed holder held =>
      refine ordered.of_held rfl rfl fun isHeld => ?_
      rcases Pool.eq_or_isHeld_of_keep isHeld with rfl | earlier
      · exact held
      · exact earlier
  | released holder => exact ordered.of_held rfl rfl Pool.isHeld_of_release
  | dropped offerable offers => exact ordered.offer offers distinguishes offerable
  | kept holder offerable offers =>
      have isBlock := ordered.block_eq offers distinguishes offerable
      exact (ordered.offer offers distinguishes offerable).keep holder (List.mem_cons_self ..)
        (isBlock ▸ ordered.files offers)

theorem ordered_empty : Ordered blocks ⟨.empty, []⟩ where
  numbered held := nomatch held
  given member := nomatch member
  named found := nomatch found
  filed lives := nomatch lives.1

theorem Reached.ordered (reached : Reached blocks lending) (distinguishes : Distinguishes blocks) :
    Ordered blocks lending := by
  induction reached with
  | refl => exact ordered_empty
  | tail _ step inductionHypothesis => exact inductionHypothesis.next distinguishes step

end Steps

/-- Offers are answered with copies of what was offered, and equal blocks share one copy. -/
structure Faithful (blocks : Set Block) (lending : Lending) : Prop where
  answered : ∀ {block answer next}, block ∈ blocks → lending.pool.Offers block answer next →
    answer.block = block
  /-- The answer is the very copy that an earlier offer was answered with, if it is still held. -/
  recalled : ∀ {block answer next shared}, lending.pool.Offers block answer next →
    lending.Lives shared → shared.block = block → answer = shared
  single : ∀ {first second}, lending.Lives first → lending.Lives second →
    first.block = second.block → first = second
  filed : ∀ {handle}, lending.Lives handle →
    lending.pool.interner.entries.get? (digest handle.block) = some handle
  /-- No offer takes the entry of a copy away that is held, also if it sweeps. -/
  spared : ∀ {block answer next key handle}, lending.pool.Offers block answer next →
    lending.pool.interner.entries.get? key = some handle → lending.pool.isHeld handle →
    next.interner.entries.get? key = some handle

/-- Whatever the holders do with these blocks, interning is faithful and shares. -/
theorem Reached.faithful {blocks : Set Block} {lending : Lending}
    (reached : Reached blocks lending) (distinguishes : Distinguishes blocks) :
    lending.Faithful blocks := by
  have ordered := reached.ordered distinguishes
  exact
    { answered := fun offerable offers => ordered.block_eq offers distinguishes offerable
      recalled := fun offers lives same => ordered.recalls offers lives same
      single := fun first second same => by
        have found := ordered.filed first
        rw [same, ordered.filed second] at found
        exact (Option.some.inj found).symm
      filed := ordered.filed
      spared := fun offers found held => by
        obtain ⟨⟨offered, -, answers⟩, -⟩ := answered_of_offers ordered.numbered offers
        exact answers.keeps found held }

/-! ## Two blocks that differ in their work -/

open Block (sampleReceive)

/-- The sample with other work. -/
def sampleReworked : Block := { sampleReceive with work := 1 }

/-- The pool after the sample was offered and the answer kept. -/
def samplePool : Pool :=
  (Pool.empty.offer sampleReceive).2.keep 0 (Pool.empty.offer sampleReceive).1

/-- The other block was offered as well, and the answer dropped. -/
def sampleLending : Lending where
  pool := (samplePool.offer sampleReworked).2
  answers := [(samplePool.offer sampleReworked).1, (Pool.empty.offer sampleReceive).1]

theorem samples_distinguished : Distinguishes {sampleReceive, sampleReworked} where
  known := by
    rintro first second (rfl | rfl) (rfl | rfl) - - sameWork
    · rfl
    · exact absurd sameWork (by decide)
    · exact absurd sameWork (by decide)
    · rfl
  apart := by
    have apart : Blake2b.Apart (digestInput sampleReceive) (digestInput sampleReworked) := by
      decide +kernel
    rintro first second (rfl | rfl) (rfl | rfl)
    · exact fun _ => rfl
    · exact apart
    · exact fun same => (apart same.symm).symm
    · exact fun _ => rfl

theorem reached_sampleLending : Reached {sampleReceive, sampleReworked} sampleLending := by
  have kept : Next {sampleReceive, sampleReworked} ⟨.empty, []⟩
      ⟨samplePool, [(Pool.empty.offer sampleReceive).1]⟩ :=
    .kept 0 (.inl rfl) (.fresh sampleReceive)
  exact .tail (.single kept) (.dropped (.inr rfl) (.fresh sampleReworked))

/-- Offered again, the sample is answered with the copy that is kept. -/
theorem sampleLending_faithful : sampleLending.Faithful {sampleReceive, sampleReworked} ∧
    sampleLending.Lives ⟨0, sampleReceive⟩ ∧
    (sampleLending.pool.offer sampleReceive).1 = ⟨0, sampleReceive⟩ := by
  have faithful := Reached.faithful reached_sampleLending samples_distinguished
  have lives : sampleLending.Lives ⟨0, sampleReceive⟩ :=
    ⟨by decide +kernel, by decide +kernel⟩
  exact ⟨faithful, lives, faithful.recalled (.fresh sampleReceive) lives rfl⟩

end Lending

end AccountChains
