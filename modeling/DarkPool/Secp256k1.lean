import Mathlib.AlgebraicGeometry.EllipticCurve.Affine.Basic
import Mathlib.NumberTheory.LegendreSymbol.Basic
import Mathlib.Tactic.NormNum.Prime
import DarkPool.Lib.LucasTest
import DarkPool.Solvency

namespace DarkPool

open LucasTest

-- The powers are computed by a recursion over the bits.
set_option maxRecDepth 4000

theorem prime_22149492674086928081353 : Nat.Prime 22149492674086928081353 := by
  have hlarge : Nat.Prime 173378833005251801 :=
    prime_of_passes 58 6 [2, 2, 2, 5, 5, 2621, 24809, 13331831] (by norm_num) (by decide)
  exact prime_of_passes 75 5 [2, 2, 2, 3, 5323, 173378833005251801]
    (by simp only [List.forall_mem_cons, hlarge]; norm_num) (by decide)

theorem prime_132896956044521568488119 : Nat.Prime 132896956044521568488119 :=
  prime_of_passes 77 6 [2, 3, 22149492674086928081353]
    (by simp only [List.forall_mem_cons, prime_22149492674086928081353]; norm_num) (by decide)

theorem prime_255515944373312847190720520512484175977 : Nat.Prime 255515944373312847190720520512484175977 :=
  prime_of_passes 128 3 [2, 2, 2, 7, 7, 11, 1627, 2657, 4423, 41201, 96557, 7240687, 107590001] (by norm_num)
    (by decide)

theorem prime_205115282021455665897114700593932402728804164701536103180137503955397371 :
    Nat.Prime 205115282021455665897114700593932402728804164701536103180137503955397371 :=
  prime_of_passes 237 10 [2, 3, 5, 29, 29, 31, 7723, 132896956044521568488119, 255515944373312847190720520512484175977]
    (by
      simp only [List.forall_mem_cons, prime_132896956044521568488119, prime_255515944373312847190720520512484175977]
      norm_num)
    (by decide)

theorem prime_secp256k1P : Nat.Prime secp256k1P :=
  prime_of_passes 256 3 [2, 3, 7, 13441, 205115282021455665897114700593932402728804164701536103180137503955397371]
    (by
      simp only [List.forall_mem_cons,
        prime_205115282021455665897114700593932402728804164701536103180137503955397371]
      norm_num)
    (by decide)

theorem fact_prime_secp256k1P : Fact secp256k1P.Prime := ⟨prime_secp256k1P⟩

/-- The curve `y² = x³ + 7`. -/
def secp256k1 : WeierstrassCurve.Affine (ZMod secp256k1P) := ⟨0, 0, 0, 0, ((7 : Nat) : ZMod secp256k1P)⟩

theorem secp256k1_equation_iff (x y : ZMod secp256k1P) : secp256k1.Equation x y ↔ y * y = x ^ 3 + (7 : Nat) := by
  rw [WeierstrassCurve.Affine.equation_iff]
  simp only [secp256k1, zero_mul, add_zero, sq]

/-- The SEC1 encodings of the affine points: the two with the coordinate `x` alone, and the one with both. -/
def IsSec1Key (key : Bytes) : Prop :=
  ∃ x y : ZMod secp256k1P, secp256k1.Equation x y ∧
    (key = 2 :: Radix.toBytes 32 x.val ∨ key = 3 :: Radix.toBytes 32 x.val ∨
      key = 4 :: (Radix.toBytes 32 x.val ++ Radix.toBytes 32 y.val))

/-- The precompile computes the power for words. -/
def Deployment.ModExpCorrect (d : Deployment) : Prop :=
  ∀ base exponent modulus, base < 2 ^ 256 → exponent < 2 ^ 256 → modulus < 2 ^ 256 → 0 < modulus →
    d.modExp base exponent modulus = some (base ^ exponent % modulus)

theorem secp256k1P_lt : secp256k1P < 2 ^ 256 := by decide

theorem one_lt_secp256k1P : 1 < secp256k1P := prime_secp256k1P.one_lt

theorem secp256k1Rhs_lt (x : Nat) : secp256k1Rhs x < secp256k1P := Nat.mod_lt _ prime_secp256k1P.pos

theorem natCast_secp256k1Rhs (x : Nat) : (secp256k1Rhs x : ZMod secp256k1P) = (x : ZMod secp256k1P) ^ 3 + (7 : Nat) := by
  simp only [secp256k1Rhs, ZMod.natCast_mod, Nat.cast_add, Nat.cast_mul]
  ring

/-- `-7` is no cube, so no point has `y = 0`. -/
theorem cube_add_seven_ne_zero (x : ZMod secp256k1P) : x ^ 3 + (7 : Nat) ≠ 0 := by
  have := fact_prime_secp256k1P
  intro hzero
  have hcast : ((secp256k1P - 7 : Nat) : ZMod secp256k1P) = x ^ 3 := by
    rw [Nat.cast_sub (by decide), ZMod.natCast_self, zero_sub]
    exact (eq_neg_of_add_eq_zero_left hzero).symm
  have hx : x ≠ 0 := by
    rintro rfl
    have hseven : ((7 : Nat) : ZMod secp256k1P) = 0 := by simpa using hzero
    have hdvd := (ZMod.natCast_eq_zero_iff _ _).mp hseven
    exact absurd (Nat.le_of_dvd (by omega) hdvd) (by decide)
  have hpow : ((secp256k1P - 7 : Nat) : ZMod secp256k1P) ^ ((secp256k1P - 1) / 3) = 1 := by
    rw [hcast, ← pow_mul, show 3 * ((secp256k1P - 1) / 3) = secp256k1P - 1 by decide]
    exact ZMod.pow_card_sub_one_eq_one hx
  rw [natCast_pow_eq_one_iff one_lt_secp256k1P, ← powMod_eq secp256k1P 256 _ _ (by decide)] at hpow
  exact absurd hpow (by decide)

theorem isQuadraticResidue_iff {d : Deployment} (hd : d.ModExpCorrect) (x : Nat) :
    isQuadraticResidue d (secp256k1Rhs x) = true ↔ IsSquare ((x : ZMod secp256k1P) ^ 3 + (7 : Nat)) := by
  have := fact_prime_secp256k1P
  rw [isQuadraticResidue, hd _ _ _ ((secp256k1Rhs_lt x).trans secp256k1P_lt) (by decide) secp256k1P_lt
    prime_secp256k1P.pos, beq_iff_eq, Option.some_inj, ← natCast_pow_eq_one_iff one_lt_secp256k1P, natCast_secp256k1Rhs,
    ZMod.euler_criterion secp256k1P (cube_add_seven_ne_zero x)]
  rfl

theorem mul_mod_eq_rhs_iff (x y : Nat) :
    y * y % secp256k1P = secp256k1Rhs x ↔ (y : ZMod secp256k1P) * y = (x : ZMod secp256k1P) ^ 3 + (7 : Nat) := by
  rw [← natCast_secp256k1Rhs, ← Nat.cast_mul, ZMod.natCast_eq_natCast_iff', Nat.mod_eq_of_lt (secp256k1Rhs_lt x)]

/-- Bytes below the prime are those of a coordinate. -/
theorem toBytes_val_ofBytes {bs : Bytes} (hlen : bs.length = 32) (hlt : Radix.ofBytes bs < secp256k1P) :
    bs = Radix.toBytes 32 ((Radix.ofBytes bs : ZMod secp256k1P)).val := by
  rw [ZMod.val_natCast_of_lt hlt, ← hlen, Radix.toBytes_ofBytes]

theorem ofBytes_toBytes_val (x : ZMod secp256k1P) : Radix.ofBytes (Radix.toBytes 32 x.val) = x.val := by
  have := fact_prime_secp256k1P
  exact Radix.ofBytes_toBytes 32 _ ((ZMod.val_lt x).trans (by decide))

theorem compressed_checks_iff {d : Deployment} (hd : d.ModExpCorrect) (tag : UInt8) {xs : Bytes} (hlen : xs.length = 32) :
    (validSec1Tag (tag :: xs) = true ∧ validSec1Point d (tag :: xs) = true) ↔
      (tag = 2 ∨ tag = 3) ∧ ∃ x y, secp256k1.Equation x y ∧ xs = Radix.toBytes 32 x.val := by
  have := fact_prime_secp256k1P
  have hread : readUint256 (tag :: xs) 1 = Radix.ofBytes xs := by
    rw [readUint256, List.drop_succ_cons, List.drop_zero, List.take_of_length_le hlen.le]
  simp only [validSec1Tag, validSec1Point, hread, List.length_cons, hlen, List.headD_cons, if_true, Bool.or_eq_true,
    beq_iff_eq]
  refine and_congr_right (fun _ => ?_)
  constructor
  · intro h
    split at h
    next => simp at h
    next hlt =>
      obtain ⟨y, hy⟩ := (isQuadraticResidue_iff hd _).mp h
      exact ⟨_, y, (secp256k1_equation_iff _ _).mpr hy.symm, toBytes_val_ofBytes hlen (not_le.mp hlt)⟩
  · rintro ⟨x, y, hxy, hx⟩
    rw [hx, ofBytes_toBytes_val, if_neg (not_le.mpr (ZMod.val_lt x)), isQuadraticResidue_iff hd, ZMod.natCast_zmod_val]
    exact ⟨y, ((secp256k1_equation_iff x y).mp hxy).symm⟩

theorem uncompressed_checks_iff (d : Deployment) (tag : UInt8) {xs ys : Bytes} (hxs : xs.length = 32) (hys : ys.length = 32) :
    (validSec1Tag (tag :: (xs ++ ys)) = true ∧ validSec1Point d (tag :: (xs ++ ys)) = true) ↔
      tag = 4 ∧ ∃ x y, secp256k1.Equation x y ∧ xs = Radix.toBytes 32 x.val ∧ ys = Radix.toBytes 32 y.val := by
  have := fact_prime_secp256k1P
  have hreadX : readUint256 (tag :: (xs ++ ys)) 1 = Radix.ofBytes xs := by
    rw [readUint256, List.drop_succ_cons, List.drop_zero, List.take_left' hxs]
  have hreadY : readUint256 (tag :: (xs ++ ys)) 33 = Radix.ofBytes ys := by
    rw [readUint256, List.drop_succ_cons, List.drop_left' hxs, List.take_of_length_le hys.le]
  have hlen : (xs ++ ys).length + 1 ≠ 33 := by
    rw [List.length_append]
    omega
  simp only [validSec1Tag, validSec1Point, hreadX, hreadY, List.length_cons, hlen, List.headD_cons, if_false, beq_iff_eq]
  refine and_congr_right (fun _ => ?_)
  constructor
  · intro h
    split at h
    next => simp at h
    next hlt =>
      obtain ⟨hy, hxy⟩ := Bool.and_eq_true_iff.mp h
      have hxy := (mul_mod_eq_rhs_iff _ _).mp (beq_iff_eq.mp hxy)
      exact ⟨_, _, (secp256k1_equation_iff _ _).mpr hxy, toBytes_val_ofBytes hxs (not_le.mp hlt),
        toBytes_val_ofBytes hys (of_decide_eq_true hy)⟩
  · rintro ⟨x, y, hxy, hx, hy⟩
    rw [hx, hy, ofBytes_toBytes_val, ofBytes_toBytes_val, if_neg (not_le.mpr (ZMod.val_lt x)), Bool.and_eq_true_iff, beq_iff_eq,
      mul_mod_eq_rhs_iff, ZMod.natCast_zmod_val, ZMod.natCast_zmod_val]
    exact ⟨decide_eq_true (ZMod.val_lt y), (secp256k1_equation_iff x y).mp hxy⟩

theorem sec1_checks_iff {d : Deployment} (hd : d.ModExpCorrect) (pubkey : Bytes) :
    ((pubkey.length = 33 ∨ pubkey.length = 65) ∧ validSec1Tag pubkey = true ∧ validSec1Point d pubkey = true) ↔
      IsSec1Key pubkey := by
  constructor
  · rintro ⟨hlen, hchecks⟩
    match pubkey, hlen, hchecks with
    | tag :: xs, .inl hlen, hchecks =>
      obtain ⟨htag, x, y, hxy, hx⟩ := (compressed_checks_iff hd tag (Nat.succ.inj hlen)).mp hchecks
      rcases htag with htag | htag
      · exact ⟨x, y, hxy, Or.inl (by rw [htag, hx])⟩
      · exact ⟨x, y, hxy, Or.inr (Or.inl (by rw [htag, hx]))⟩
    | tag :: bs, .inr hlen, hchecks =>
      have hbs : bs.length = 64 := Nat.succ.inj hlen
      rw [← List.take_append_drop 32 bs, uncompressed_checks_iff d tag (by simp [hbs]) (by simp [hbs])] at hchecks
      obtain ⟨htag, x, y, hxy, hx, hy⟩ := hchecks
      exact ⟨x, y, hxy, Or.inr (Or.inr (by rw [htag, ← hx, ← hy, List.take_append_drop]))⟩
  · rintro ⟨x, y, hxy, hkey | hkey | hkey⟩ <;> rw [hkey]
    · exact ⟨Or.inl (by simp), (compressed_checks_iff hd 2 (by simp)).mpr ⟨Or.inl rfl, x, y, hxy, rfl⟩⟩
    · exact ⟨Or.inl (by simp), (compressed_checks_iff hd 3 (by simp)).mpr ⟨Or.inr rfl, x, y, hxy, rfl⟩⟩
    · exact ⟨Or.inr (by simp), (uncompressed_checks_iff d 4 (by simp) (by simp)).mpr ⟨rfl, x, y, hxy, rfl, rfl⟩⟩

/-- The checks of a new operator key pass for the SEC1 keys and for nothing else, and the owner's call
goes through for these. -/
theorem setOperatorPubkey_accepts {d : Deployment} (hd : d.ModExpCorrect) (pubkey : Bytes) :
    ((pubkey.length = 33 ∨ pubkey.length = 65) ∧ validSec1Tag pubkey = true ∧ validSec1Point d pubkey = true ↔
      IsSec1Key pubkey) ∧
    ∀ (p : Pool) (effectiveAt : Nat),
      (∃ p', adminCall d p p.owner (.setOperatorPubkey pubkey effectiveAt) = .ok p') ↔ IsSec1Key pubkey := by
  refine ⟨sec1_checks_iff hd pubkey, fun p effectiveAt => ?_⟩
  rw [← sec1_checks_iff hd pubkey]
  simp only [adminCall, onlyOwner, bind_eq_ok, require_eq_ok]
  constructor
  · rintro ⟨p', _, -, _, hlen, _, htag, _, hpoint, -⟩
    exact ⟨hlen, htag, hpoint⟩
  · rintro ⟨hlen, htag, hpoint⟩
    exact ⟨_, (), trivial, (), hlen, (), htag, (), hpoint, rfl⟩

theorem setOperatorPubkey_accepts_twoThree :
    Onchain.deployment.ModExpCorrect ∧
      ((∃ p', adminCall Onchain.deployment Onchain.start.pool Onchain.start.pool.owner
        (.setOperatorPubkey (2 :: List.replicate 32 3) 0) = .ok p') ↔ IsSec1Key (2 :: List.replicate 32 3)) := by
  have hd : Onchain.deployment.ModExpCorrect := fun _ _ _ _ _ _ _ => rfl
  exact ⟨hd, (setOperatorPubkey_accepts hd _).2 _ 0⟩

end DarkPool
