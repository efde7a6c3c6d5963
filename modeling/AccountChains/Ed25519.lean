import AccountChains.Hash.Sha512

/-!
Contract: the Ed25519 signature scheme over byte strings.

Points of the curve `-x² + y² = 1 + d x² y²` over the integers modulo
`2 ^ 255 - 19` are kept in extended coordinates: `(X, Y, Z, T)` stands for
`x = X / Z`, `y = Y / Z`, with `T = X Y / Z`.

Owns: the public key of a seed, deterministic signing, and verification. What
verification accepts is decided as follows. The scalar of a signature must be
below the group order. The key must decode to a point; its `y` is reduced first,
and points of small order are as good as any. The first half of the signature is
compared as bytes with the recomputed point, and no cofactor is cleared.
-/

namespace AccountChains.Ed25519

def fieldOrder : Nat :=
  57896044618658097711785492504343953926634992332820282019728792003956564819949

def groupOrder : Nat :=
  7237005577332262213973186563042994240857116359379907606001950938285454250989

/-- The highest bit of 32 bytes. -/
def highestBit : Nat := 1 <<< 255

/-- The second highest bit of 32 bytes. -/
def secondHighestBit : Nat := 1 <<< 254

/-- Modular exponentiation; `bits` bounds the length of the exponent. -/
def power (bits base exponent : Nat) : Nat :=
  match bits with
  | 0 => 1
  | bits + 1 =>
    let half := power bits (base * base % fieldOrder) (exponent / 2)
    if exponent % 2 = 1 then half * base % fieldOrder else half

/-- The inverse in the field, zero for zero. -/
def inverse (value : Nat) : Nat := power 255 value (fieldOrder - 2)

@[inline] def subtract (left right : Nat) : Nat := (left + (fieldOrder - right)) % fieldOrder

def curveConstant : Nat :=
  37095705934669439343138083508754565189542113879843219016388785533085940283555

def rootOfMinusOne : Nat := power 255 2 ((fieldOrder - 1) / 4)

structure Point where
  x : Nat
  y : Nat
  z : Nat
  t : Nat
deriving DecidableEq, Repr

namespace Point

def neutral : Point := ⟨0, 1, 1, 0⟩

/-- The sum of two points; the law is complete, so equal and opposite points need no care. -/
def add (left right : Point) : Point :=
  let a := subtract left.y left.x * subtract right.y right.x % fieldOrder
  let b := (left.y + left.x) * (right.y + right.x) % fieldOrder
  let c := left.t * 2 * curveConstant % fieldOrder * right.t % fieldOrder
  let d := left.z * 2 * right.z % fieldOrder
  let e := subtract b a
  let f := subtract d c
  let g := (d + c) % fieldOrder
  let h := (b + a) % fieldOrder
  ⟨e * f % fieldOrder, g * h % fieldOrder, f * g % fieldOrder, e * h % fieldOrder⟩

def negate (point : Point) : Point :=
  ⟨subtract 0 point.x, point.y, point.z, subtract 0 point.t⟩

/-- A multiple of a point; `bits` bounds the length of the scalar. -/
def multiply : (bits scalar : Nat) → Point → Point
  | 0, _, _ => neutral
  | bits + 1, scalar, point =>
    let rest := multiply bits (scalar / 2) (add point point)
    if scalar % 2 = 1 then add rest point else rest

/-- The 32 bytes of a point: `y`, least significant byte first, with the parity of `x` in the
highest bit. -/
def toBytes (point : Point) : Bytes :=
  let scale := inverse point.z
  let x := point.x * scale % fieldOrder
  let y := point.y * scale % fieldOrder
  Bytes.littleEndian 32 (y + highestBit * (x % 2))

/-- The point with the given bytes, if there is one. -/
def ofBytes? (bytes : Bytes) : Option Point :=
  let number := Bytes.ofLittleEndian bytes
  let odd := number / highestBit
  let y := number % highestBit % fieldOrder
  let square := y * y % fieldOrder
  let numerator := subtract square 1
  let denominator := (curveConstant * square + 1) % fieldOrder
  let quotient := numerator * inverse denominator % fieldOrder
  let candidate := power 255 quotient ((fieldOrder + 3) / 8)
  let root? :=
    if candidate * candidate % fieldOrder = quotient then some candidate
    else
      let other := candidate * rootOfMinusOne % fieldOrder
      if other * other % fieldOrder = quotient then some other else none
  root?.map fun root =>
    let x := if root % 2 = odd then root else subtract 0 root
    ⟨x, y, 1, x * y % fieldOrder⟩

end Point

def base : Point :=
  let x := 15112221349535400772501151409588531511454012693041857206046113283949847762202
  let y := 46316835694926478169428394003475163141307993866256225615783033603165251855960
  ⟨x, y, 1, x * y % fieldOrder⟩

/-- The first half of a seed's digest as a scalar: divisible by eight, with the second highest
bit of 256 set and the highest clear. -/
def clampedScalar (half : Bytes) : Nat :=
  let number := Bytes.ofLittleEndian half % secondHighestBit
  secondHighestBit + (number - number % 8)

/-- The secret scalar and the nonce key of a seed. -/
def expandSeed (seed : Bytes) : Nat × Bytes :=
  let digest := Sha512.digest seed
  (clampedScalar (digest.take 32), digest.drop 32)

/-- The 32 bytes of a seed's public key. -/
def publicKey (seed : Bytes) : Bytes :=
  (base.multiply 255 (expandSeed seed).1).toBytes

/-- The digest of several byte strings in a row, as a scalar. -/
def challenge (parts : List Bytes) : Nat :=
  Bytes.ofLittleEndian (Sha512.digest parts.flatten) % groupOrder

/-- The 64 bytes of a seed's signature of a message. -/
def sign (seed message : Bytes) : Bytes :=
  let (secret, nonceKey) := expandSeed seed
  let key := (base.multiply 255 secret).toBytes
  let nonce := challenge [nonceKey, message]
  let commitment := (base.multiply 253 nonce).toBytes
  let response := (nonce + challenge [commitment, key, message] * secret) % groupOrder
  commitment ++ Bytes.littleEndian 32 response

/-- Whether a key of 32 bytes accepts a signature of 64 bytes for a message. -/
def verify (key message signature : Bytes) : Bool :=
  match Point.ofBytes? key with
  | none => false
  | some point =>
    let commitment := signature.take 32
    let response := Bytes.ofLittleEndian (signature.drop 32)
    if groupOrder ≤ response then false
    else
      let scalar := challenge [commitment, key, message]
      let recomputed := (base.multiply 253 response).add (point.negate.multiply 253 scalar)
      recomputed.toBytes == commitment

end AccountChains.Ed25519
