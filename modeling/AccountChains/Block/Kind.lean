/-!
Contract: the kinds of block, their codes on the wire and their sizes.

Two codes are reserved for things that are no block; they have a name but no
form, so their size is zero.
-/

namespace AccountChains

/-- What a type code announces. -/
inductive BlockKind where
  | invalid
  | notABlock
  | send
  | receive
  | opening
  | change
  | state
deriving DecidableEq, Repr

namespace BlockKind

/-- All kinds, in the order of their codes. -/
def all : List BlockKind := [.invalid, .notABlock, .send, .receive, .opening, .change, .state]

/-- The code that announces a kind. -/
def code : BlockKind → UInt8
  | .invalid => 0
  | .notABlock => 1
  | .send => 2
  | .receive => 3
  | .opening => 4
  | .change => 5
  | .state => 6

/-- The kind that a code announces. -/
def ofCode? (code : UInt8) : Option BlockKind :=
  all.find? fun kind => kind.code == code

theorem ofCode?_code (kind : BlockKind) : ofCode? kind.code = some kind := by
  cases kind <;> rfl

theorem code_of_ofCode? {code : UInt8} {kind : BlockKind} (announced : ofCode? code = some kind) :
    kind.code = code := by
  simpa using List.find?_some announced

/-- Whether blocks of this kind belong to chains from before state blocks. -/
def isLegacy : BlockKind → Bool
  | .send | .receive | .opening | .change => true
  | .invalid | .notABlock | .state => false

/-- The number of bytes of a block of this kind, its code not counted. -/
def size : BlockKind → Nat
  | .send => 152
  | .receive => 136
  | .opening => 168
  | .change => 136
  | .state => 216
  | .invalid | .notABlock => 0

def name : BlockKind → String
  | .invalid => "Invalid"
  | .notABlock => "NotABlock"
  | .send => "Send"
  | .receive => "Receive"
  | .opening => "Open"
  | .change => "Change"
  | .state => "State"

/-- The name of a kind in the middle of a sentence. -/
def noun : BlockKind → String
  | .invalid => "invalid"
  | .notABlock => "not_a_block"
  | .send => "send"
  | .receive => "receive"
  | .opening => "open"
  | .change => "change"
  | .state => "state"

end BlockKind

end AccountChains
