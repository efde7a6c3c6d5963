import AccountChains.Bytes

/-!
Contract: the SHA-512 hash function.

Owns: `digest`, 64 bytes for every byte string. The signature scheme uses it for
key expansion, nonces and challenges; nothing else does.
-/

namespace AccountChains.Sha512

structure Registers where
  a : UInt64
  b : UInt64
  c : UInt64
  d : UInt64
  e : UInt64
  f : UInt64
  g : UInt64
  h : UInt64
deriving DecidableEq, Repr

/-- The fractional parts of the square roots of the first eight primes. -/
def initial : Registers :=
  ⟨0x6a09e667f3bcc908, 0xbb67ae8584caa73b, 0x3c6ef372fe94f82b, 0xa54ff53a5f1d36f1,
    0x510e527fade682d1, 0x9b05688c2b3e6c1f, 0x1f83d9abfb41bd6b, 0x5be0cd19137e2179⟩

/-- The fractional parts of the cube roots of the first eighty primes. -/
def constants : List UInt64 := [
  0x428a2f98d728ae22, 0x7137449123ef65cd, 0xb5c0fbcfec4d3b2f, 0xe9b5dba58189dbbc,
  0x3956c25bf348b538, 0x59f111f1b605d019, 0x923f82a4af194f9b, 0xab1c5ed5da6d8118,
  0xd807aa98a3030242, 0x12835b0145706fbe, 0x243185be4ee4b28c, 0x550c7dc3d5ffb4e2,
  0x72be5d74f27b896f, 0x80deb1fe3b1696b1, 0x9bdc06a725c71235, 0xc19bf174cf692694,
  0xe49b69c19ef14ad2, 0xefbe4786384f25e3, 0x0fc19dc68b8cd5b5, 0x240ca1cc77ac9c65,
  0x2de92c6f592b0275, 0x4a7484aa6ea6e483, 0x5cb0a9dcbd41fbd4, 0x76f988da831153b5,
  0x983e5152ee66dfab, 0xa831c66d2db43210, 0xb00327c898fb213f, 0xbf597fc7beef0ee4,
  0xc6e00bf33da88fc2, 0xd5a79147930aa725, 0x06ca6351e003826f, 0x142929670a0e6e70,
  0x27b70a8546d22ffc, 0x2e1b21385c26c926, 0x4d2c6dfc5ac42aed, 0x53380d139d95b3df,
  0x650a73548baf63de, 0x766a0abb3c77b2a8, 0x81c2c92e47edaee6, 0x92722c851482353b,
  0xa2bfe8a14cf10364, 0xa81a664bbc423001, 0xc24b8b70d0f89791, 0xc76c51a30654be30,
  0xd192e819d6ef5218, 0xd69906245565a910, 0xf40e35855771202a, 0x106aa07032bbd1b8,
  0x19a4c116b8d2d0c8, 0x1e376c085141ab53, 0x2748774cdf8eeb99, 0x34b0bcb5e19b48a8,
  0x391c0cb3c5c95a63, 0x4ed8aa4ae3418acb, 0x5b9cca4f7763e373, 0x682e6ff3d6b2b8a3,
  0x748f82ee5defb2fc, 0x78a5636f43172f60, 0x84c87814a1f0ab72, 0x8cc702081a6439ec,
  0x90befffa23631e28, 0xa4506cebde82bde9, 0xbef9a3f7b2c67915, 0xc67178f2e372532b,
  0xca273eceea26619c, 0xd186b8c721c0c207, 0xeada7dd6cde0eb1e, 0xf57d4f7fee6ed178,
  0x06f067aa72176fba, 0x0a637dc5a2c898a6, 0x113f9804bef90dae, 0x1b710b35131c471b,
  0x28db77f523047d84, 0x32caab7b40c72493, 0x3c9ebe0a15c9bebc, 0x431d67c49c100d4c,
  0x4cc5d4becb3e42b6, 0x597f299cfc657e2a, 0x5fcb6fab3ad6faec, 0x6c44198c4a475817]

@[inline] def rotate (word count : UInt64) : UInt64 :=
  (word >>> count) ||| (word <<< (64 - count))

/-- The 64-bit words of a byte string, each most significant byte first. -/
def words : (count : Nat) → Bytes → List UInt64
  | 0, _ => []
  | count + 1, bytes =>
    UInt64.ofNat (Bytes.ofBigEndian (bytes.take 8)) :: words count (bytes.drop 8)

/-- The word that follows the last sixteen words of the message schedule. -/
def nextWord (schedule : Array UInt64) : UInt64 :=
  let back := fun distance => schedule.getD (schedule.size - distance) 0
  let near := back 2
  let far := back 15
  (rotate near 19 ^^^ rotate near 61 ^^^ (near >>> 6)) + back 7
    + (rotate far 1 ^^^ rotate far 8 ^^^ (far >>> 7)) + back 16

/-- Extend the sixteen words of a block to the eighty of the schedule. -/
def extend : (missing : Nat) → Array UInt64 → Array UInt64
  | 0, schedule => schedule
  | missing + 1, schedule => extend missing (schedule.push (nextWord schedule))

def step (registers : Registers) (input : UInt64 × UInt64) : Registers :=
  let r := registers
  let choice := (r.e &&& r.f) ^^^ (~~~r.e &&& r.g)
  let majority := (r.a &&& r.b) ^^^ (r.a &&& r.c) ^^^ (r.b &&& r.c)
  let first := r.h + (rotate r.e 14 ^^^ rotate r.e 18 ^^^ rotate r.e 41) + choice
    + input.1 + input.2
  let second := (rotate r.a 28 ^^^ rotate r.a 34 ^^^ rotate r.a 39) + majority
  ⟨first + second, r.a, r.b, r.c, r.d + first, r.e, r.f, r.g⟩

/-- Take one block of 128 bytes into the chaining value. -/
def compress (chain : Registers) (block : Bytes) : Registers :=
  let schedule := extend 64 (words 16 block).toArray
  let last := (constants.zip schedule.toList).foldl step chain
  ⟨chain.a + last.a, chain.b + last.b, chain.c + last.c, chain.d + last.d,
    chain.e + last.e, chain.f + last.f, chain.g + last.g, chain.h + last.h⟩

/-- Take in `count` blocks of 128 bytes. -/
def absorb : (count : Nat) → Registers → Bytes → Registers
  | 0, chain, _ => chain
  | count + 1, chain, bytes => absorb count (compress chain (bytes.take 128)) (bytes.drop 128)

/-- The message, a one bit, zeros up to 16 bytes before a block's end, and its length in bits. -/
def padded (message : Bytes) : Bytes :=
  let zeros := (239 - message.length % 128) % 128
  message ++ 0x80 :: List.replicate zeros 0 ++ Bytes.bigEndian 16 (8 * message.length)

def digest (message : Bytes) : Bytes :=
  let input := padded message
  let r := absorb (input.length / 128) initial input
  [r.a, r.b, r.c, r.d, r.e, r.f, r.g, r.h].flatMap fun word => Bytes.bigEndian 8 word.toNat

end AccountChains.Sha512
