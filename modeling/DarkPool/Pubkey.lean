import DarkPool.Contract

namespace DarkPool

def secp256k1P : Nat := 0xFFFFFFFFFFFFFFFFFFFFFFFFFFFFFFFFFFFFFFFFFFFFFFFFFFFFFFFEFFFFFC2F

def secp256k1LegendreExp : Nat := (secp256k1P - 1) / 2

/-- The word at an offset that leaves 32 bytes to read. -/
def readUint256 (data : Bytes) (offset : Nat) : Nat := Radix.ofBytes ((data.drop offset).take 32)

def secp256k1Rhs (x : Nat) : Nat :=
  let x2 := x * x % secp256k1P
  (x2 * x % secp256k1P + 7) % secp256k1P

def isQuadraticResidue (d : Deployment) (value : Nat) : Bool :=
  d.modExp value secp256k1LegendreExp secp256k1P == some 1

/-- The leading byte of a key of one of the two lengths. -/
def validSec1Tag (pubkey : Bytes) : Bool :=
  let tag := pubkey.headD 0
  if pubkey.length = 33 then tag == 2 || tag == 3 else tag == 4

def validSec1Point (d : Deployment) (pubkey : Bytes) : Bool :=
  let x := readUint256 pubkey 1
  if secp256k1P ≤ x then false
  else
    let rhs := secp256k1Rhs x
    if pubkey.length = 33 then isQuadraticResidue d rhs
    else
      let y := readUint256 pubkey 33
      decide (y < secp256k1P) && y * y % secp256k1P == rhs

end DarkPool
