import AccountChains.Bytes

/-!
Contract: signatures, 64 bytes read as one 512-bit value.

The first half encodes a point of the curve, the second half a scalar; this
module owns only the bytes.
-/

namespace AccountChains

structure Signature where
  value : BitVec 512
deriving DecidableEq, Repr, Inhabited

namespace Signature

def zero : Signature := ⟨0⟩

def isZero (signature : Signature) : Bool := signature.value == 0

def toBytes (signature : Signature) : Bytes := Bytes.ofWord 64 signature.value

def ofBytes (bytes : Bytes) : Signature := ⟨Bytes.toWord 64 bytes⟩

/-- The signature in the first 64 bytes, when there are that many. -/
def ofBytes? (bytes : Bytes) : Option Signature :=
  if 64 ≤ bytes.length then some (ofBytes (bytes.take 64)) else none

@[simp] theorem length_toBytes (signature : Signature) : signature.toBytes.length = 64 :=
  Bytes.length_ofWord 64 signature.value

@[simp] theorem ofBytes_toBytes (signature : Signature) :
    ofBytes signature.toBytes = signature :=
  congrArg Signature.mk (Bytes.toWord_ofWord 64 signature.value)

theorem toBytes_ofBytes {bytes : Bytes} (exact : bytes.length = 64) :
    (ofBytes bytes).toBytes = bytes :=
  Bytes.ofWord_toWord exact

end Signature

end AccountChains
