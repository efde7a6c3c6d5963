import AccountChains.Authorship
import AccountChains.Block.Wire

/-!
Contract: which blocks have one hash.

What is hashed is the content in its wire form, for a state block with the preamble in
front. Its length tells the kind of the block, but for one pair: a receive and a change
are both two identifiers in a row. So if the digest does not collide, a hash belongs to
one content, or to a receive and a change over the same bytes. These compete for the
same slot, and the hash does not say which of them its signer meant.

Owns: when contents have the same input and blocks the same hash, and what can be told
from the hash in any case. Does not own: the digest, which is only assumed not to collide
on the inputs at hand.
-/

namespace AccountChains

/-- What is hashed in front of a content of a given kind. -/
def BlockKind.preamble : BlockKind → Bytes
  | .state => Content.statePreamble
  | .send | .receive | .opening | .change | .invalid | .notABlock => []

namespace Content

/-- A receive and a change over the same bytes: the block that follows `previous` and takes the
send `source`, and the one that names as representative the account with the same bytes. -/
inductive Twins : Content → Content → Prop where
  | mk (previous source : BlockHash) :
    Twins (.receive ⟨previous, source⟩) (.change ⟨previous, source.asAccount⟩)

theorem hashInput_eq (content : Content) :
    content.hashInput = content.kind.preamble ++ content.toBytes := by
  cases content <;> simp [hashInput, toBytes, kind, BlockKind.preamble]

/-- A content is known from its kind and its wire form. -/
theorem eq_of_toBytes_eq {first second : Content} (sameKind : first.kind = second.kind)
    (sameBytes : first.toBytes = second.toBytes) : first = second := by
  have readFirst := ofBytes?_toBytes first []
  have readSecond := ofBytes?_toBytes second []
  rw [sameBytes, sameKind] at readFirst
  exact Option.some.inj (readFirst.symm.trans readSecond)

/-- The length of the input tells the kind, up to a receive and a change. -/
theorem kind_of_length {first second : Content}
    (sameLength : first.hashInput.length = second.hashInput.length) :
    first.kind = second.kind ∨ first.kind = .receive ∧ second.kind = .change
      ∨ first.kind = .change ∧ second.kind = .receive := by
  cases first <;> cases second <;>
    simp [hashInput, length_statePreamble, kind] at sameLength ⊢

theorem Twins.hashInput_eq {first second : Content} (twins : first.Twins second) :
    first.hashInput = second.hashInput := by
  cases twins
  rfl

theorem Twins.previous_eq {first second : Content} (twins : first.Twins second) :
    first.previous = second.previous := by
  cases twins
  rfl

theorem Twins.root_eq {first second : Content} (twins : first.Twins second) :
    first.root = second.root := by
  cases twins
  rfl

theorem Twins.of_hashInput_eq {first second : Content} (isReceive : first.kind = .receive)
    (isChange : second.kind = .change) (sameInput : first.hashInput = second.hashInput) :
    first.Twins second := by
  cases first with
  | receive receive =>
    cases second with
    | change change =>
      obtain ⟨previous, source⟩ := receive
      obtain ⟨otherPrevious, representative⟩ := change
      obtain ⟨samePrevious, sameRest⟩ := List.append_inj sameInput (by simp)
      obtain rfl := Identifier.toBytes_injective samePrevious
      have named : source.asAccount = representative := Identifier.toBytes_injective sameRest
      exact named ▸ .mk previous source
    | send _ | receive _ | opening _ | state _ => cases isChange
  | send _ | opening _ | change _ | state _ => cases isReceive

/-- The same input is hashed for the same content, and for twins. -/
theorem hashInput_eq_iff (first second : Content) : first.hashInput = second.hashInput
    ↔ first = second ∨ first.Twins second ∨ second.Twins first := by
  constructor
  · intro sameInput
    rcases kind_of_length (congrArg List.length sameInput) with
      sameKind | ⟨isReceive, isChange⟩ | ⟨isChange, isReceive⟩
    · rw [first.hashInput_eq, second.hashInput_eq, sameKind] at sameInput
      exact .inl (eq_of_toBytes_eq sameKind (List.append_cancel_left sameInput))
    · exact .inr (.inl (.of_hashInput_eq isReceive isChange sameInput))
    · exact .inr (.inr (.of_hashInput_eq isReceive isChange sameInput.symm))
  · rintro (rfl | twins | twins)
    · rfl
    · exact twins.hashInput_eq
    · exact twins.hashInput_eq.symm

end Content

/-! ## Blocks -/

/-- Two byte strings with the same digest are the same. -/
def Blake2b.Apart (first second : Bytes) : Prop :=
  Blake2b.digest256 first = Blake2b.digest256 second → first = second

instance (first second : Bytes) : Decidable (Blake2b.Apart first second) :=
  inferInstanceAs (Decidable (_ → _))

namespace Block

theorem hash_eq_of_hashInput_eq {first second : Block}
    (sameInput : first.content.hashInput = second.content.hashInput) :
    first.hash = second.hash := by
  unfold hash Content.hash
  rw [sameInput]

/-- Blocks with the same hash and the same signature are signed by the same. -/
theorem isSignedBy_eq_of_hash_eq {first second : Block} (sameHash : first.hash = second.hash)
    (sameSignature : first.signature = second.signature) (signer : Account) :
    first.isSignedBy signer = second.isSignedBy signer := by
  unfold isSignedBy signedMessage
  rw [sameHash, sameSignature]

section Pairs

variable {first second : Block}
  (apart : Blake2b.Apart first.content.hashInput second.content.hashInput)

include apart

theorem hashInput_eq_of_hash_eq (sameHash : first.hash = second.hash) :
    first.content.hashInput = second.content.hashInput := by
  unfold hash Content.hash at sameHash
  exact apart (congrArg Identifier.value sameHash)

/-- Blocks with one hash compete for the same slot, whether they say the same or not. -/
theorem qualifiedRoot_eq_of_hash_eq (sameHash : first.hash = second.hash) :
    first.qualifiedRoot = second.qualifiedRoot := by
  unfold qualifiedRoot root previous
  rcases (Content.hashInput_eq_iff _ _).mp (hashInput_eq_of_hash_eq apart sameHash) with
    same | twins | twins
  · rw [same]
  · rw [twins.root_eq, twins.previous_eq]
  · rw [twins.root_eq, twins.previous_eq]

/-- Two blocks have the same hash if they say the same, and if they are a receive and a change over
the same bytes; otherwise they have not. -/
theorem hash_eq_iff : first.hash = second.hash
    ↔ first.content = second.content
      ∨ first.content.Twins second.content ∨ second.content.Twins first.content := by
  rw [← Content.hashInput_eq_iff]
  exact ⟨hashInput_eq_of_hash_eq apart, hash_eq_of_hashInput_eq⟩

end Pairs

/-- A receive of the send `2` after the block `1`. -/
def sampleReceive : Block := ⟨.receive ⟨.ofNumber 1, .ofNumber 2⟩, .zero, 0⟩

/-- A change after the block `1`. -/
def sampleChange (representative : Account) : Block :=
  ⟨.change ⟨.ofNumber 1, representative⟩, .zero, 0⟩

theorem hash_sampleReceive_eq_iff :
    Blake2b.Apart sampleReceive.content.hashInput (sampleChange (.ofNumber 3)).content.hashInput
      ∧ (sampleReceive.hash = (sampleChange (.ofNumber 3)).hash
        ↔ sampleReceive.content = (sampleChange (.ofNumber 3)).content
          ∨ sampleReceive.content.Twins (sampleChange (.ofNumber 3)).content
          ∨ (sampleChange (.ofNumber 3)).content.Twins sampleReceive.content) :=
  ⟨by decide +kernel, hash_eq_iff (by decide +kernel)⟩

/-- The hash does not tell a receive from a change that names the send as its representative, and
whoever signs the one signs the other. -/
theorem sampleReceive_not_known_from_hash :
    Blake2b.Apart sampleReceive.content.hashInput (sampleChange (.ofNumber 2)).content.hashInput
      ∧ sampleReceive.hash = (sampleChange (.ofNumber 2)).hash
      ∧ (∀ signer, sampleReceive.isSignedBy signer = (sampleChange (.ofNumber 2)).isSignedBy signer)
      ∧ sampleReceive.kind ≠ (sampleChange (.ofNumber 2)).kind
      ∧ sampleReceive.content ≠ (sampleChange (.ofNumber 2)).content := by
  have twins : sampleReceive.content.Twins (sampleChange (.ofNumber 2)).content :=
    .mk (.ofNumber 1) (.ofNumber 2)
  have sameHash := hash_eq_of_hashInput_eq twins.hashInput_eq
  exact ⟨fun _ => twins.hashInput_eq, sameHash, isSignedBy_eq_of_hash_eq sameHash rfl, by decide,
    by decide⟩

end Block

end AccountChains
