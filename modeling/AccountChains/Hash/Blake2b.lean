import AccountChains.Bytes

/-!
Contract: the BLAKE2b hash function without a key, for digests of up to 64 bytes.

The sixteen working words are four rows of four. One round mixes the four
columns, turns the rows so that the diagonals stand in the columns, mixes again
and turns back; the message words enter in the order of the round's schedule.

Owns: `digest`, and the two digests the ledger uses: 256 bits for identity, 64
bits for work. Does not own: what is hashed.
-/

namespace AccountChains.Blake2b

structure Row where
  w0 : UInt64
  w1 : UInt64
  w2 : UInt64
  w3 : UInt64
deriving DecidableEq, Repr

namespace Row

/-- Apply an operation to the words of two rows, place by place. -/
@[inline] def zip (operation : UInt64 → UInt64 → UInt64) (left right : Row) : Row :=
  ⟨operation left.w0 right.w0, operation left.w1 right.w1,
    operation left.w2 right.w2, operation left.w3 right.w3⟩

@[inline] def rotateWords (row : Row) (count : UInt64) : Row :=
  let rotate := fun (word : UInt64) => (word >>> count) ||| (word <<< (64 - count))
  ⟨rotate row.w0, rotate row.w1, rotate row.w2, rotate row.w3⟩

@[inline] def turn1 (row : Row) : Row := ⟨row.w1, row.w2, row.w3, row.w0⟩

@[inline] def turn2 (row : Row) : Row := ⟨row.w2, row.w3, row.w0, row.w1⟩

@[inline] def turn3 (row : Row) : Row := ⟨row.w3, row.w0, row.w1, row.w2⟩

/-- The bytes of the words, each least significant byte first. -/
def toBytes (row : Row) : Bytes :=
  [row.w0, row.w1, row.w2, row.w3].flatMap fun word => Bytes.littleEndian 8 word.toNat

end Row

/-- The chaining value: eight words in two rows. -/
structure Chain where
  low : Row
  high : Row
deriving DecidableEq, Repr

/-- The working state: sixteen words in four rows. -/
structure Lanes where
  a : Row
  b : Row
  c : Row
  d : Row
deriving DecidableEq, Repr

/-- The first half of the constants from the fractional parts of square roots. -/
def initialLow : Row :=
  ⟨0x6a09e667f3bcc908, 0xbb67ae8584caa73b, 0x3c6ef372fe94f82b, 0xa54ff53a5f1d36f1⟩

/-- The second half of the constants. -/
def initialHigh : Row :=
  ⟨0x510e527fade682d1, 0x9b05688c2b3e6c1f, 0x1f83d9abfb41bd6b, 0x5be0cd19137e2179⟩

/-- The places of the message words, round by round. -/
def schedule : List (List Nat) := [
  [0, 1, 2, 3, 4, 5, 6, 7, 8, 9, 10, 11, 12, 13, 14, 15],
  [14, 10, 4, 8, 9, 15, 13, 6, 1, 12, 0, 2, 11, 7, 5, 3],
  [11, 8, 12, 0, 5, 2, 15, 13, 10, 14, 3, 6, 7, 1, 9, 4],
  [7, 9, 3, 1, 13, 12, 11, 14, 2, 6, 5, 10, 4, 0, 15, 8],
  [9, 0, 5, 7, 2, 4, 10, 15, 14, 1, 11, 12, 6, 8, 3, 13],
  [2, 12, 6, 10, 0, 11, 8, 3, 4, 13, 7, 5, 15, 14, 1, 9],
  [12, 5, 1, 15, 14, 13, 4, 10, 0, 7, 6, 3, 9, 2, 8, 11],
  [13, 11, 7, 14, 12, 1, 3, 9, 5, 0, 15, 4, 8, 6, 2, 10],
  [6, 15, 14, 9, 11, 3, 0, 8, 12, 2, 13, 7, 1, 4, 10, 5],
  [10, 2, 8, 4, 7, 6, 1, 5, 15, 11, 9, 14, 3, 12, 13, 0],
  [0, 1, 2, 3, 4, 5, 6, 7, 8, 9, 10, 11, 12, 13, 14, 15],
  [14, 10, 4, 8, 9, 15, 13, 6, 1, 12, 0, 2, 11, 7, 5, 3]]

/-- Mix the four columns with two message words for each. -/
@[inline] def mixColumns (lanes : Lanes) (first second : Row) : Lanes :=
  let a := Row.zip (· + ·) (Row.zip (· + ·) lanes.a lanes.b) first
  let d := (Row.zip (· ^^^ ·) lanes.d a).rotateWords 32
  let c := Row.zip (· + ·) lanes.c d
  let b := (Row.zip (· ^^^ ·) lanes.b c).rotateWords 24
  let a := Row.zip (· + ·) (Row.zip (· + ·) a b) second
  let d := (Row.zip (· ^^^ ·) d a).rotateWords 16
  let c := Row.zip (· + ·) c d
  let b := (Row.zip (· ^^^ ·) b c).rotateWords 63
  ⟨a, b, c, d⟩

/-- One round: columns, then diagonals. -/
def round (message : Array UInt64) (lanes : Lanes) (places : List Nat) : Lanes :=
  let word := fun index => message.getD (places.getD index 0) 0
  let mixed := mixColumns lanes
    ⟨word 0, word 2, word 4, word 6⟩ ⟨word 1, word 3, word 5, word 7⟩
  let turned : Lanes := ⟨mixed.a, mixed.b.turn1, mixed.c.turn2, mixed.d.turn3⟩
  let crossed := mixColumns turned
    ⟨word 8, word 10, word 12, word 14⟩ ⟨word 9, word 11, word 13, word 15⟩
  ⟨crossed.a, crossed.b.turn3, crossed.c.turn2, crossed.d.turn1⟩

/-- The words of a block, eight bytes each, least significant byte first; what is missing is zero. -/
def words : (count : Nat) → Bytes → List UInt64
  | 0, _ => []
  | count + 1, bytes =>
    UInt64.ofNat (Bytes.ofLittleEndian (bytes.take 8)) :: words count (bytes.drop 8)

/-- Take one block of up to 128 bytes into the chaining value. `total` counts the bytes
hashed so far, this block included; `final` marks the last block. -/
def compress (chain : Chain) (block : Bytes) (total : Nat) (final : Bool) : Chain :=
  let message := (words 16 block).toArray
  let counters : Row :=
    ⟨UInt64.ofNat total, UInt64.ofNat (total / UInt64.size), if final then ~~~0 else 0, 0⟩
  let start : Lanes :=
    ⟨chain.low, chain.high, initialLow, Row.zip (· ^^^ ·) initialHigh counters⟩
  let lanes := schedule.foldl (round message) start
  ⟨Row.zip (· ^^^ ·) chain.low (Row.zip (· ^^^ ·) lanes.a lanes.c),
    Row.zip (· ^^^ ·) chain.high (Row.zip (· ^^^ ·) lanes.b lanes.d)⟩

/-- Take in all bytes; `full` blocks precede the last one. -/
def absorb : (full : Nat) → (before : Nat) → Chain → Bytes → Chain
  | 0, before, chain, bytes => compress chain bytes (before + bytes.length) true
  | full + 1, before, chain, bytes =>
    absorb full (before + 128) (compress chain (bytes.take 128) (before + 128) false)
      (bytes.drop 128)

/-- The digest of `size` bytes, for `size` from 1 to 64. -/
def digest (size : Nat) (bytes : Bytes) : Bytes :=
  let parameters := 0x01010000 ^^^ UInt64.ofNat size
  let start : Chain := ⟨{ initialLow with w0 := initialLow.w0 ^^^ parameters }, initialHigh⟩
  let final := absorb ((bytes.length - 1) / 128) 0 start bytes
  (final.low.toBytes ++ final.high.toBytes).take size

/-- The digest of 32 bytes as a number, most significant byte first. -/
def digest256 (bytes : Bytes) : BitVec 256 :=
  BitVec.ofNat 256 (Bytes.ofBigEndian (digest 32 bytes))

/-- The digest of 8 bytes as a number, least significant byte first. -/
def digest64 (bytes : Bytes) : UInt64 :=
  UInt64.ofNat (Bytes.ofLittleEndian (digest 8 bytes))

end AccountChains.Blake2b
