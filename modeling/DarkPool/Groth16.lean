import DarkPool.Contract
import DarkPool.Lib.Bilinear

namespace DarkPool

/-- The coordinates of a point of G1, as the calls carry them. -/
abbrev G1Words := Nat × Nat

/-- The coordinates of a point of G2, each as its imaginary and its real part. -/
abbrev G2Words := (Nat × Nat) × (Nat × Nat)

def primeQ : Nat := 21888242871839275222246405745257275088696311157297823662689037894645226208583

def maxBatch : Nat := 256

/-- The pairing of groups of the scalar field's order behind the precompiles, with the coordinates of their
points. `decode` and `decodeTwo` fail off the curve. -/
structure PairingCurve (G₁ G₂ GT : Type) [AddCommGroup G₁] [AddCommGroup G₂] [CommGroup GT] where
  e : G₁ →+ G₂ →+ Additive GT
  card_one : Nat.card G₁ = scalarModulus
  card_two : Nat.card G₂ = scalarModulus
  card_target : Nat.card GT = scalarModulus
  encode : G₁ → G1Words
  decode : G1Words → Option G₁
  decode_eq_some : ∀ w P, decode w = some P ↔ w = encode P
  encode_zero : encode 0 = (0, 0)
  encode_neg : ∀ P, P ≠ 0 → (encode P).2 ≤ primeQ ∧ encode (-P) = ((encode P).1, primeQ - (encode P).2)
  decodeTwo : G2Words → Option G₂

structure VerifyingKey where
  alpha1 : G1Words
  beta2 : G2Words
  gamma2 : G2Words
  delta2 : G2Words
  ic : Vector G1Words 7

/-- What the challenge is hashed from: the call's arguments, or the challenge that was drawn before. -/
structure Transcript where
  hash : List G1Words → List G2Words → List G1Words → List (Vector Nat 6) → Nat
  retry : Nat → Nat

/-- Draws again while the challenge is 0 or 1, for as long as the gas lasts. -/
def Transcript.challenge (t : Transcript) : Nat → Nat → Except Revert Nat
  | 0, _ => .error ""
  | gas + 1, r0 => if r0 = 0 ∨ r0 = 1 then t.challenge gas (t.retry r0 % scalarModulus) else .ok r0

def firstIc : Fin 7 := ⟨0, Nat.zero_lt_succ 6⟩

/-- The six words of one term of a pairing input. -/
def pairingTerm (p : G1Words) (q : G2Words) : List Nat := [p.1, p.2, q.1.1, q.1.2, q.2.1, q.2.2]

def negate (p : G1Words) : Except Revert G1Words :=
  if p.1 = 0 ∧ p.2 = 0 then .ok (0, 0)
  else do
    let y ← checkedSub primeQ p.2
    return (p.1, y)

def checkInputsRange (inputs : List (Vector Nat 6)) : Except Revert Unit :=
  require (∀ input ∈ inputs, ∀ x ∈ input.toList, x < scalarModulus) "input overflow"

/-- The power of the challenge for the round `i`. -/
def nextPower (r0 i ri : Nat) : Nat := if 0 < i then ri * r0 % scalarModulus else ri

namespace PairingCurve

variable {G₁ G₂ GT : Type} [AddCommGroup G₁] [AddCommGroup G₂] [CommGroup GT] (C : PairingCurve G₁ G₂ GT)

def ecAdd (p q : G1Words) : Except Revert G1Words :=
  match C.decode p, C.decode q with
  | some P, some Q => .ok (C.encode (P + Q))
  | _, _ => .error "ecAdd failed"

def ecMul (p : G1Words) (s : Nat) : Except Revert G1Words :=
  match C.decode p with
  | some P => .ok (C.encode (s • P))
  | none => .error "ecMul failed"

/-- The terms of a pairing input, six words each. -/
def parseTerms : List Nat → Option (List (G₁ × G₂))
  | [] => some []
  | x :: y :: a :: b :: c :: d :: words => do
    let P ← C.decode (x, y)
    let Q ← C.decodeTwo ((a, b), (c, d))
    let terms ← parseTerms words
    return (P, Q) :: terms
  | _ => none

def pairingProduct (words : List Nat) : Option GT :=
  (C.parseTerms words).map (fun terms => (terms.map (fun t => Bilinear.pair C.e t.1 t.2)).prod)

variable [DecidableEq GT]

/-- The word that the pairing precompile answers with. -/
def ecPairing (words : List Nat) : Except Revert Nat :=
  match C.pairingProduct words with
  | some x => .ok (if x = 1 then 1 else 0)
  | none => .error "ecPairing failed"

def ecPairingDynamic (input : List Nat) : Except Revert Bool := do
  let result ← C.ecPairing input
  return result == 1

variable (vk : VerifyingKey)

def ecPairingSingle (a1 : G1Words) (a2 : G2Words) (c1 d1 : G1Words) : Except Revert Bool := do
  let input := pairingTerm a1 a2 ++ pairingTerm vk.alpha1 vk.beta2 ++ pairingTerm c1 vk.gamma2 ++ pairingTerm d1 vk.delta2
  let result ← C.ecPairing input
  return result == 1

omit [DecidableEq GT]

def publicInputAccumulator (input : Vector Nat 6) : Except Revert G1Words :=
  (List.finRange 6).foldlM
    (fun li j => do
      let p ← C.ecMul (vk.ic.get j.succ) (input.get j)
      C.ecAdd li p)
    (vk.ic.get firstIc)

def accumulateRL (r0 : Nat) : Nat → Nat → Nat → G1Words → List (Vector Nat 6) → Except Revert (Nat × G1Words)
  | _, _, rSum, accL, [] => .ok (rSum, accL)
  | i, ri, rSum, accL, input :: inputs => do
    let ri := nextPower r0 i ri
    let rSum := (rSum + ri) % scalarModulus
    let li ← C.publicInputAccumulator vk input
    let l ← C.ecMul li ri
    let accL ← C.ecAdd accL l
    accumulateRL r0 (i + 1) ri rSum accL inputs

/-- The loop of `_buildBatchPairingInput`, over the three arrays at once. -/
def proofTerms (r0 : Nat) : Nat → Nat → G1Words → List G1Words → List G2Words → List G1Words →
    Except Revert (List Nat × G1Words)
  | i, ri, accC, a :: aArr, b :: bArr, c :: cArr => do
    let ri := nextPower r0 i ri
    let negA ← negate a
    let p ← C.ecMul negA ri
    let q ← C.ecMul c ri
    let accC ← C.ecAdd accC q
    let (pIn, accC) ← proofTerms r0 (i + 1) ri accC aArr bArr cArr
    return (pairingTerm p b ++ pIn, accC)
  | _, _, accC, _, _, _ => .ok ([], accC)

def buildBatchPairingInput (aArr : List G1Words) (bArr : List G2Words) (cArr : List G1Words) (r0 : Nat)
    (accAlpha accL : G1Words) : Except Revert (List Nat) := do
  let (pIn, accC) ← C.proofTerms r0 0 1 (0, 0) aArr bArr cArr
  return pIn ++ pairingTerm accAlpha vk.beta2 ++ pairingTerm accL vk.gamma2 ++ pairingTerm accC vk.delta2

/-- What `verifyProofBatch` gives to the pairing precompile, for a challenge. -/
def batchPairingInput (aArr : List G1Words) (bArr : List G2Words) (cArr : List G1Words) (inputs : List (Vector Nat 6))
    (r0 : Nat) : Except Revert (List Nat) := do
  let (rSum, accL) ← C.accumulateRL vk r0 0 1 0 (0, 0) inputs
  let accAlpha ← C.ecMul vk.alpha1 rSum
  C.buildBatchPairingInput vk aArr bArr cArr r0 accAlpha accL

variable [DecidableEq GT]

def verifyProof (a : G1Words) (b : G2Words) (c : G1Words) (input : Vector Nat 6) : Except Revert Bool := do
  checkInputsRange [input]
  let vkX ← C.publicInputAccumulator vk input
  let negA ← negate a
  C.ecPairingSingle vk negA b vkX c

def verifyProofBatch (t : Transcript) (gas : Nat) (aArr : List G1Words) (bArr : List G2Words) (cArr : List G1Words)
    (inputs : List (Vector Nat 6)) : Except Revert Bool := do
  let n := aArr.length
  require (0 < n) "empty batch"
  require (n ≤ maxBatch) "batch too large"
  require (bArr.length = n ∧ cArr.length = n ∧ inputs.length = n) "length mismatch"
  checkInputsRange inputs
  let r0 ← t.challenge gas (t.hash aArr bArr cArr inputs % scalarModulus)
  let pIn ← C.batchPairingInput vk aArr bArr cArr inputs r0
  C.ecPairingDynamic pIn

end PairingCurve

end DarkPool
