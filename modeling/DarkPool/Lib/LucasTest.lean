import Mathlib.Data.List.Prime
import Mathlib.NumberTheory.LucasPrimality

namespace LucasTest

/-- `a ^ n % m` by repeated squaring, for `n` of at most `bits` bits. -/
def powMod (m : Nat) : Nat → Nat → Nat → Nat
  | 0, _, _ => 1 % m
  | bits + 1, a, n => powMod m bits (a * a % m) (n / 2) * (if n % 2 = 1 then a else 1) % m

theorem powMod_eq (m : Nat) (bits a n : Nat) (h : n < 2 ^ bits) : powMod m bits a n = a ^ n % m := by
  induction bits generalizing a n with
  | zero =>
    have hn : n = 0 := by simpa using h
    simp [powMod, hn]
  | succ bits ih =>
    rw [powMod, ih _ _ (by rw [pow_succ] at h; omega), ← Nat.pow_mod, Nat.mod_mul_mod, ← sq, ← pow_mul]
    split
    next hodd => rw [← pow_succ, show 2 * (n / 2) + 1 = n by omega]
    next heven => rw [mul_one, show 2 * (n / 2) = n by omega]

/-- The test of `p` with the base `a`, over the prime factors of `p - 1`. -/
def passes (bits p a : Nat) (factors : List Nat) : Bool :=
  1 < p && p ≤ 2 ^ bits && factors.prod == p - 1 && powMod p bits a (p - 1) == 1 &&
    factors.all (fun q => powMod p bits a ((p - 1) / q) != 1)

theorem natCast_pow_eq_one_iff {p : Nat} (hp : 1 < p) (a n : Nat) : ((a : ZMod p) ^ n = 1) ↔ a ^ n % p = 1 := by
  rw [← Nat.cast_pow, ← Nat.cast_one, ZMod.natCast_eq_natCast_iff', Nat.mod_eq_of_lt hp]

theorem prime_of_passes {p : Nat} (bits a : Nat) (factors : List Nat) (hfactors : ∀ q ∈ factors, q.Prime)
    (h : passes bits p a factors = true) : p.Prime := by
  simp only [passes, Bool.and_eq_true, decide_eq_true_eq, beq_iff_eq, List.all_eq_true, bne_iff_ne] at h
  obtain ⟨⟨⟨⟨hp, hbits⟩, hprod⟩, hone⟩, hne⟩ := h
  have hfits : ∀ n ≤ p - 1, n < 2 ^ bits := fun n hn => by omega
  refine lucas_primality p (a : ZMod p) ?_ (fun q hq hdvd => ?_)
  · rw [natCast_pow_eq_one_iff hp, ← powMod_eq p bits a _ (hfits _ le_rfl)]
    exact hone
  · obtain ⟨f, hf, hqf⟩ := (Prime.dvd_prod_iff hq.prime).mp (hprod ▸ hdvd)
    cases (Nat.prime_dvd_prime_iff_eq hq (hfactors f hf)).mp hqf
    rw [ne_eq, natCast_pow_eq_one_iff hp, ← powMod_eq p bits a _ (hfits _ (Nat.div_le_self _ _))]
    exact hne q hf

end LucasTest
