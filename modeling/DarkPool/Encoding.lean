import Mathlib.Data.ZMod.Basic
import DarkPool.Types
import DarkPool.Lib.Radix

namespace DarkPool

/-- The order of the BN254 scalar field. -/
def scalarModulus : Nat :=
  21888242871839275222246405745257275088548364400416034343698204186575808495617

instance : NeZero scalarModulus := ⟨by decide⟩

instance : Fact (1 < scalarModulus) := ⟨by decide⟩

abbrev Fr := ZMod scalarModulus

/-- The components of the state that the rounds of a session are folded into. -/
abbrev zJournal : Fin 5 := 0
abbrev zRound : Fin 5 := 1
abbrev zPolicy : Fin 5 := 2
abbrev zSettlement : Fin 5 := 3
abbrev zAdmitted : Fin 5 := 4

/-- A `[u8; 32]` read big-endian. -/
abbrev Bytes32 := BitVec 256

def Bytes32.toVec (b : Bytes32) : Bytes := Radix.toBytes 32 b.toNat

def addressBytes (a : Address) : Bytes := Radix.toBytes 20 a.toNat

inductive EncodingError
  | negative (d : Decimal)
  | overflow (d : Decimal)
  | precision (d : Decimal)
  | fieldElementTooLong (actual : Nat)
  | invalidFieldElementLength (actual : Nat)
  | nonCanonicalFieldElement
  deriving DecidableEq

def scaleFactor : Decimal := 100000000

def maxEncoded : Nat := 2 ^ 60

/-- The largest value a decimal can hold; a product above it overflows. -/
def maxDecimal : Decimal := 2 ^ 96 - 1

def decimalToScalar (d : Decimal) : Except EncodingError Fr :=
  if d < 0 then .error (.negative d)
  else if maxDecimal < d * scaleFactor then .error (.overflow d)
  else if (d * scaleFactor).den ≠ 1 then .error (.precision d)
  else if (d * scaleFactor).num < maxEncoded then .ok ((d * scaleFactor).num.toNat : Fr)
  else .error (.overflow d)

def frToBytes32 (f : Fr) : Bytes32 := BitVec.ofNat 256 f.val

/-- The caller keeps `x` away from `i128::MIN`, whose absolute value overflows. -/
def signedToScalar (x : Int) : Except EncodingError Fr :=
  if (maxEncoded : Int) ≤ |x| then .error (.overflow x)
  else if 0 ≤ x then .ok (x.toNat : Fr)
  else .ok (-((-x).toNat : Fr))

def bytesToScalar (b : Bytes) : Except EncodingError Fr :=
  if 32 < b.length then .error (.fieldElementTooLong b.length)
  else
    let scalar : Fr := (Radix.ofBytes b : Fr)
    if b.length = 32 ∧ (frToBytes32 scalar).toVec ≠ b then .error .nonCanonicalFieldElement
    else .ok scalar

def bytes32ToScalar (b : Bytes) : Except EncodingError Fr :=
  if b.length ≠ 32 then .error (.invalidFieldElementLength b.length) else bytesToScalar b

def hexEncode (b : Bytes) : String := String.ofList (Radix.toHex (2 * b.length) (Radix.ofBytes b))

def hexDecode (digits : List Char) : Option Bytes :=
  if digits.length % 2 = 1 then none else (Radix.ofHex digits).map (Radix.toBytes (digits.length / 2))

@[simp] theorem Bytes32.length_toVec (b : Bytes32) : b.toVec.length = 32 := Radix.length_toBytes 32 b.toNat

@[simp] theorem Bytes32.ofBytes_toVec (b : Bytes32) : Radix.ofBytes b.toVec = b.toNat :=
  Radix.ofBytes_toBytes 32 b.toNat (by have := b.isLt; omega)

theorem Bytes32.toVec_injective {a b : Bytes32} (h : a.toVec = b.toVec) : a = b := by
  have hnat : a.toNat = b.toNat := by
    rw [← Bytes32.ofBytes_toVec a, ← Bytes32.ofBytes_toVec b, h]
  exact BitVec.eq_of_toNat_eq hnat

theorem frToBytes32_toNat (f : Fr) : (frToBytes32 f).toNat = f.val := by
  have hlt : f.val < scalarModulus := ZMod.val_lt f
  have hmod : scalarModulus < 2 ^ 256 := by decide
  rw [frToBytes32, BitVec.toNat_ofNat, Nat.mod_eq_of_lt (by omega)]

/-- Thirty-two bytes decode exactly when they are the encoding of the element they name. -/
theorem bytes32ToScalar_toVec (b : Bytes32) :
    bytes32ToScalar b.toVec =
      if frToBytes32 (b.toNat : Fr) = b then .ok (b.toNat : Fr) else .error .nonCanonicalFieldElement := by
  have hcanon : (frToBytes32 (b.toNat : Fr)).toVec = b.toVec ↔ frToBytes32 (b.toNat : Fr) = b :=
    ⟨Bytes32.toVec_injective, fun h => by rw [h]⟩
  simp only [bytes32ToScalar, bytesToScalar, Bytes32.length_toVec, Bytes32.ofBytes_toVec, ne_eq,
    not_true_eq_false, if_false, lt_irrefl, true_and, ite_not, hcanon]

@[simp] theorem bytes32ToScalar_frToBytes32 (f : Fr) : bytes32ToScalar (frToBytes32 f).toVec = .ok f := by
  have hcast : ((frToBytes32 f).toNat : Fr) = f := by
    rw [frToBytes32_toNat, ZMod.natCast_zmod_val]
  rw [bytes32ToScalar_toVec, hcast, if_pos rfl]

theorem decimalToScalar_eq_ok {d : Decimal} {f : Fr} :
    decimalToScalar d = .ok f ↔ ∃ n : Nat, n < maxEncoded ∧ d * scaleFactor = n ∧ f = (n : Fr) := by
  constructor
  · intro h
    unfold decimalToScalar at h
    split at h
    next => simp at h
    next hpos =>
      split at h
      next => simp at h
      next =>
        split at h
        next => simp at h
        next hden =>
          split at h
          next hlt =>
            have hnum : (d * scaleFactor).num = d * scaleFactor :=
              Rat.coe_int_num_of_den_eq_one (not_not.mp hden)
            have hnonneg : 0 ≤ (d * scaleFactor).num := by
              rw [Rat.num_nonneg]
              have hscale : (0 : ℚ) ≤ scaleFactor := by norm_num [scaleFactor]
              exact mul_nonneg (not_lt.mp hpos) hscale
            refine ⟨(d * scaleFactor).num.toNat, by omega, ?_, (Except.ok.inj h).symm⟩
            rw [← hnum]
            exact_mod_cast (Int.toNat_of_nonneg hnonneg).symm
          next => simp at h
  · rintro ⟨n, hn, hd, rfl⟩
    have hpos : ¬ d < 0 := by
      intro hneg
      have hscale : (0 : ℚ) < scaleFactor := by norm_num [scaleFactor]
      have hlt := mul_neg_of_neg_of_pos hneg hscale
      rw [hd] at hlt
      exact absurd hlt (by simp)
    have hmax : ¬ maxDecimal < n := by
      have hle : (n : ℚ) < 2 ^ 60 := by exact_mod_cast hn
      have hbig : (2 : ℚ) ^ 60 ≤ 2 ^ 96 - 1 := by norm_num
      exact not_lt.mpr (le_trans (le_of_lt hle) hbig)
    unfold decimalToScalar
    rw [hd, if_neg hpos, if_neg hmax]
    simp [hn]

/-- Only a magnitude of at least `2^60` is refused. -/
theorem signedToScalar_isOk {x : Int} (h : |x| < maxEncoded) : ∃ f, signedToScalar x = .ok f := by
  unfold signedToScalar
  rw [if_neg (not_le.mpr h)]
  split
  next => exact ⟨_, rfl⟩
  next => exact ⟨_, rfl⟩

theorem hexDecode_hexEncode (n x : Nat) (h : x < 256 ^ n) :
    hexDecode (hexEncode (Radix.toBytes n x)).toList = some (Radix.toBytes n x) := by
  have hpow : (256 : Nat) ^ n = 16 ^ (2 * n) := by rw [Nat.pow_mul]
  have heven : ¬ 2 * n % 2 = 1 := by omega
  have hhalf : 2 * n / 2 = n := by omega
  simp only [hexDecode, hexEncode, String.toList_ofList, Radix.length_toHex, Radix.length_toBytes,
    Radix.ofBytes_toBytes n x h, if_neg heven, Radix.ofHex_toHex (2 * n) x (hpow ▸ h), Option.map_some, hhalf]

end DarkPool
