import AccountChains.Authorship
import AccountChains.Epoch
import AccountChains.Intake.Interner
import AccountChains.Verification

/-!
Contract: the owners of blocks, told from what has been handed in.

A block that names its account belongs to it; any other block belongs to the owner of
the block before it. This is known without a ledger, as long as hashes tell the blocks
apart. The bytes that are hashed say who owns a block and what its link is, so blocks
with the same bytes agree on both.

What is known about a signature is backed if the owner's key accepts it, if a key does
that was claimed when the block was handed in, or, for the knowledge that the signer of
the link has signed, if this signer's key does.

Owns: `Submissions`, ownership, what backs a verification, and the absence of
collisions among the byte strings that are hashed. Does not own: what a ledger makes of
it.
-/

namespace AccountChains

/-! ## What the hashed bytes say -/

/-- Where the owner of a block is found. -/
inductive Lineage where
  | own (account : Account)
  | after (previous : BlockHash)
deriving DecidableEq, Repr

namespace Content

def lineage : Content → Lineage
  | .send content => .after content.previous
  | .receive content => .after content.previous
  | .opening content => .own content.account
  | .change content => .after content.previous
  | .state content => .own content.account

/-- The lineage as it is read from the bytes that are hashed; their number tells the kind. -/
def lineageIn (input : Bytes) : Lineage :=
  if input.length = 96 then .own (.ofBytes (input.drop 64))
  else if input.length = 176 then .own (.ofBytes (Bytes.field input 32 32))
  else .after (.ofBytes (input.take 32))

/-- The link as it is read from the bytes that are hashed. -/
def linkIn (input : Bytes) : Link :=
  if input.length = 176 then .ofBytes (input.drop 144) else .zero

theorem drop_statePreamble {count : Nat} (beyond : 32 ≤ count) : statePreamble.drop count = [] :=
  List.drop_eq_nil_of_le (Nat.le_trans (Nat.le_of_eq length_statePreamble) beyond)

theorem lineage_eq (content : Content) : content.lineage = lineageIn content.hashInput := by
  cases content <;>
    simp [lineage, lineageIn, hashInput, Bytes.field, length_statePreamble, List.drop_append,
      Identifier.drop_toBytes, Amount.length_toBytes]

theorem link_eq (content : Content) : content.link = linkIn content.hashInput := by
  cases content <;>
    simp [link, linkIn, hashInput, length_statePreamble, drop_statePreamble, List.drop_append,
      Identifier.drop_toBytes, Amount.length_toBytes]

end Content

/-! ## Submissions -/

/-- What has been handed in: blocks, and the accounts that are claimed to own a hash. -/
structure Submissions where
  blocks : List Block
  claims : List (BlockHash × Account)

namespace Submissions

/-- The byte strings that are hashed to tell a block from others. -/
def inputs (block : Block) : List Bytes :=
  [block.content.hashInput,
    block.hash.toBytes ++ block.signature.toBytes ++ Bytes.littleEndian 8 block.work.toNat]

/-- No two of the byte strings that are hashed for the blocks have the same digest. -/
def CollisionFree (submissions : Submissions) : Prop :=
  ∀ first ∈ submissions.blocks.flatMap inputs, ∀ second ∈ submissions.blocks.flatMap inputs,
    Blake2b.digest256 first = Blake2b.digest256 second → first = second

instance (submissions : Submissions) : Decidable submissions.CollisionFree :=
  inferInstanceAs (Decidable (∀ first ∈ _, ∀ second ∈ _, _))

/-- A hash belongs to an account, as the submitted blocks tell. -/
inductive Owns (submissions : Submissions) : BlockHash → Account → Prop where
  | own {block : Block} {hash : BlockHash} {account : Account}
      (submitted : block ∈ submissions.blocks) (isHash : block.hash = hash)
      (names : block.content.lineage = .own account) : Owns submissions hash account
  | after {block : Block} {hash previous : BlockHash} {account : Account}
      (submitted : block ∈ submissions.blocks) (isHash : block.hash = hash)
      (follows : block.content.lineage = .after previous)
      (rest : Owns submissions previous account) : Owns submissions hash account

section Named

variable {submissions : Submissions} {block : Block} (submitted : block ∈ submissions.blocks)

include submitted

theorem Owns.of_opening {content : OpeningContent} (form : block.content = .opening content) :
    submissions.Owns block.hash content.account := by
  apply Owns.own submitted rfl
  rw [form]
  rfl

theorem Owns.of_state {content : StateContent} (form : block.content = .state content) :
    submissions.Owns block.hash content.account := by
  apply Owns.own submitted rfl
  rw [form]
  rfl

end Named

/-- A block is signed by an account that was claimed to own it. -/
def Vouches (submissions : Submissions) (block : Block) : Prop :=
  ∃ claimed, (block.hash, claimed) ∈ submissions.claims ∧ claimed ≠ .zero ∧
    block.isSignedBy claimed

/-- Something that may be known about the signature of a block is backed by a signature. -/
inductive Backs (submissions : Submissions) (links : EpochLinks) (block : Block) :
    Verification → Prop where
  | unknown : Backs submissions links block .unknown
  | invalid : Backs submissions links block .invalid
  | owner {owner : Account} (owns : submissions.Owns block.hash owner)
      (signed : block.isSignedBy owner) : Backs submissions links block .valid
  | vouched (vouches : submissions.Vouches block) : Backs submissions links block .valid
  | signer (signed : block.isSignedBy ((links.signer? block.link).getD .zero)) :
      Backs submissions links block .validEpoch

/-- What waits in a table or a queue is a submitted block; what is known about its signature is
backed, and the account that comes with it was claimed. -/
structure Attests (submissions : Submissions) (links : EpochLinks) (block : Block)
    (account : Account) (verified : Verification) : Prop where
  submitted : block ∈ submissions.blocks
  backed : submissions.Backs links block verified
  claimed : account ≠ .zero → (block.hash, account) ∈ submissions.claims

section Distinct

variable {submissions : Submissions} (collisionFree : submissions.CollisionFree)
  {block other : Block} {hash previous : BlockHash} {account owner : Account}
  (submitted : block ∈ submissions.blocks)

include collisionFree submitted

/-- Submitted blocks with one hash say the same, as far as it is hashed. -/
theorem CollisionFree.hashInput_eq (alsoSubmitted : other ∈ submissions.blocks)
    (sameHash : block.hash = other.hash) : block.content.hashInput = other.content.hashInput := by
  have sameDigest : Blake2b.digest256 block.content.hashInput
      = Blake2b.digest256 other.content.hashInput := by
    unfold Block.hash Content.hash at sameHash
    exact congrArg Identifier.value sameHash
  exact collisionFree _ (List.mem_flatMap.mpr ⟨block, submitted, by simp [inputs]⟩) _
    (List.mem_flatMap.mpr ⟨other, alsoSubmitted, by simp [inputs]⟩) sameDigest

theorem CollisionFree.lineage_eq (alsoSubmitted : other ∈ submissions.blocks)
    (sameHash : block.hash = other.hash) : block.content.lineage = other.content.lineage := by
  rw [Content.lineage_eq, Content.lineage_eq,
    collisionFree.hashInput_eq submitted alsoSubmitted sameHash]

theorem CollisionFree.link_eq (alsoSubmitted : other ∈ submissions.blocks)
    (sameHash : block.hash = other.hash) : block.link = other.link := by
  unfold Block.link
  rw [Content.link_eq, Content.link_eq,
    collisionFree.hashInput_eq submitted alsoSubmitted sameHash]

/-- Submitted blocks with one digest have the same hash and the same signature. -/
theorem CollisionFree.same_of_digest (alsoSubmitted : other ∈ submissions.blocks)
    (sameDigest : Interner.digest block = Interner.digest other) :
    block.hash = other.hash ∧ block.signature = other.signature := by
  have sameInput := collisionFree _
    (List.mem_flatMap.mpr ⟨block, submitted, List.mem_cons_of_mem _ List.mem_cons_self⟩) _
    (List.mem_flatMap.mpr ⟨other, alsoSubmitted, List.mem_cons_of_mem _ List.mem_cons_self⟩)
    sameDigest
  obtain ⟨sameFront, -⟩ := List.append_inj sameInput (by simp)
  obtain ⟨sameHash, sameSignature⟩ := List.append_inj sameFront (by simp)
  refine ⟨?_, ?_⟩
  · rw [← Identifier.ofBytes_toBytes block.hash, sameHash, Identifier.ofBytes_toBytes]
  · rw [← Signature.ofBytes_toBytes block.signature, sameSignature, Signature.ofBytes_toBytes]

/-- A hash belongs to the account that a submitted block with this hash names. -/
theorem Owns.eq_of_own (owns : submissions.Owns block.hash account)
    (names : block.content.lineage = .own owner) : account = owner := by
  cases owns with
  | own alsoSubmitted isHash alsoNames =>
      have same := collisionFree.lineage_eq submitted alsoSubmitted isHash.symm
      rw [names, alsoNames] at same
      exact (Lineage.own.inj same).symm
  | after alsoSubmitted isHash follows =>
      have same := collisionFree.lineage_eq submitted alsoSubmitted isHash.symm
      rw [names, follows] at same
      exact Lineage.noConfusion same

/-- The owner of a block that names none is the owner of the block before it. -/
theorem Owns.of_after (owns : submissions.Owns block.hash account)
    (follows : block.content.lineage = .after previous) : submissions.Owns previous account := by
  cases owns with
  | own alsoSubmitted isHash names =>
      have same := collisionFree.lineage_eq submitted alsoSubmitted isHash.symm
      rw [follows, names] at same
      exact Lineage.noConfusion same
  | after alsoSubmitted isHash alsoFollows rest =>
      have same := collisionFree.lineage_eq submitted alsoSubmitted isHash.symm
      rw [follows, alsoFollows] at same
      exact Lineage.after.inj same ▸ rest

omit submitted in
/-- A hash has one owner. -/
theorem Owns.unique (owns : submissions.Owns hash account)
    (alsoOwns : submissions.Owns hash owner) : account = owner := by
  induction owns with
  | own submitted isHash names =>
      subst isHash
      exact (alsoOwns.eq_of_own collisionFree submitted names).symm
  | after submitted isHash follows _ inductionHypothesis =>
      subst isHash
      exact inductionHypothesis (alsoOwns.of_after collisionFree submitted follows)

/-- What is known about a block is known about every copy of it. -/
theorem Backs.copied {links : EpochLinks} {verified : Verification}
    (backs : submissions.Backs links block verified) (alsoSubmitted : other ∈ submissions.blocks)
    (sameHash : block.hash = other.hash) (sameSignature : block.signature = other.signature) :
    submissions.Backs links other verified := by
  have sameSigner (signer : Account) : block.isSignedBy signer = other.isSignedBy signer := by
    unfold Block.isSignedBy Block.signedMessage
    rw [sameHash, sameSignature]
  have sameLink := collisionFree.link_eq submitted alsoSubmitted sameHash
  cases backs with
  | unknown => exact .unknown
  | invalid => exact .invalid
  | owner owns signed => exact .owner (sameHash ▸ owns) (sameSigner _ ▸ signed)
  | vouched vouches =>
      obtain ⟨claimed, claims, named, signed⟩ := vouches
      exact .vouched ⟨claimed, sameHash ▸ claims, named, sameSigner claimed ▸ signed⟩
  | signer signed => exact .signer (sameLink ▸ sameSigner _ ▸ signed)

end Distinct

end Submissions

end AccountChains
