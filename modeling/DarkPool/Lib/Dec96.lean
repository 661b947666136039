import Mathlib.Algebra.Order.Field.Basic
import Mathlib.Data.Nat.Cast.Field
import Mathlib.Data.Rat.Cast.Order
import Mathlib.Tactic.FieldSimp
import Mathlib.Tactic.Linarith
import Mathlib.Tactic.Positivity
import Mathlib.Tactic.Ring

/-- A decimal as a sign, a 96-bit mantissa and a scale of at most 28 digits. A zero may carry a sign. -/
structure Dec96 where
  neg : Bool
  mantissa : Nat
  scale : Nat
  mantissa_lt : mantissa < 2 ^ 96
  scale_le : scale ≤ 28

namespace Dec96

def magnitude (d : Dec96) : ℚ := d.mantissa / 10 ^ d.scale

def value (d : Dec96) : ℚ := if d.neg then -d.magnitude else d.magnitude

/-- The digits to drop before a product fits the mantissa. -/
def excess (n : Nat) : Nat := if n < 2 ^ 96 then 0 else excess (n / 10) + 1

/-- Division with the half going to the even neighbour. -/
def roundDiv (n k : Nat) : Nat :=
  if k < 2 * (n % k) ∨ (2 * (n % k) = k ∧ n / k % 2 = 1) then n / k + 1 else n / k

/-- The product `n` at `scale`, with `k` digits dropped. -/
def dropDigits (neg : Bool) (n scale k : Nat) : Option Dec96 :=
  if h : k ≤ scale ∧ scale ≤ k + 28 ∧ roundDiv n (10 ^ k) < 2 ^ 96 then
    some ⟨neg, roundDiv n (10 ^ k), scale - k, h.2.2, by omega⟩
  else none

theorem zero_scale_le : 0 ≤ 28 := by norm_num

def zero : Dec96 := ⟨false, 0, 0, by norm_num, zero_scale_le⟩

/-- A product keeps as many digits as fit, and overflows once it has no more to drop. Rounding up may
cost one digit more. -/
def checkedMul (a b : Dec96) : Option Dec96 :=
  if a.mantissa = 0 ∨ b.mantissa = 0 then some zero
  else
    let n := a.mantissa * b.mantissa
    let scale := a.scale + b.scale
    let k := max (excess n) (scale - 28)
    (dropDigits (a.neg != b.neg) n scale k).or (dropDigits (a.neg != b.neg) n scale (k + 1))

/-- The integer part, without the sign. -/
def trunc (d : Dec96) : Nat := d.mantissa / 10 ^ d.scale

def IsInteger (d : Dec96) : Prop := d.mantissa % 10 ^ d.scale = 0

instance (d : Dec96) : Decidable d.IsInteger := inferInstanceAs (Decidable (_ = _))

/-- A power of ten within the mantissa. -/
def powTen (e : Nat) (he : 10 ^ e < 2 ^ 96) : Dec96 := ⟨false, 10 ^ e, 0, he, by norm_num⟩

theorem magnitude_nonneg (d : Dec96) : 0 ≤ d.magnitude := by unfold magnitude; positivity

theorem value_of_neg {d : Dec96} (h : d.neg = true) : d.value = -d.magnitude := by simp [value, h]

theorem value_of_not_neg {d : Dec96} (h : d.neg = false) : d.value = d.magnitude := by simp [value, h]

theorem excess_fits (n : Nat) : n / 10 ^ excess n < 2 ^ 96 := by
  fun_induction excess n with
  | case1 n h => simpa using h
  | case2 n h ih =>
    rw [pow_succ', ← Nat.div_div_eq_div_mul]
    exact ih

theorem excess_le {n k : Nat} (h : n / 10 ^ k < 2 ^ 96) : excess n ≤ k := by
  induction k generalizing n with
  | zero =>
    rw [excess, if_pos (by simpa using h)]
  | succ k ih =>
    rw [excess]
    split
    next => omega
    next =>
      have := ih (n := n / 10) (by rwa [Nat.div_div_eq_div_mul, ← pow_succ'])
      omega

theorem roundDiv_of_dvd {n k : Nat} (hk : 0 < k) (h : k ∣ n) : roundDiv n k = n / k := by
  rw [roundDiv, Nat.mod_eq_zero_of_dvd h, if_neg]
  omega

section PowTen

variable (d : Dec96) {e : Nat} (he : 10 ^ e < 2 ^ 96)

/-- The digits a power of ten adds are the ones to drop. -/
theorem excess_mul_pow : excess (d.mantissa * 10 ^ e) ≤ e :=
  excess_le (by
    rw [Nat.mul_div_cancel _ (by positivity)]
    exact d.mantissa_lt)

theorem excess_le_scale_iff :
    excess (d.mantissa * 10 ^ e) ≤ d.scale ↔ d.magnitude * 10 ^ e < 2 ^ 96 := by
  have hrat : d.magnitude * 10 ^ e < 2 ^ 96 ↔ d.mantissa * 10 ^ e < 2 ^ 96 * 10 ^ d.scale := by
    rw [magnitude, div_mul_eq_mul_div, div_lt_iff₀ (by positivity)]
    exact_mod_cast Iff.rfl
  rw [hrat]
  constructor
  · intro h
    have hfits := (Nat.div_lt_iff_lt_mul (by positivity)).mp (excess_fits (d.mantissa * 10 ^ e))
    exact hfits.trans_le (Nat.mul_le_mul_left _ (Nat.pow_le_pow_right (by norm_num) h))
  · intro h
    exact excess_le ((Nat.div_lt_iff_lt_mul (by positivity)).mpr h)

/-- Multiplied by a power of ten a decimal is exact or overflows. -/
theorem checkedMul_powTen_of_lt (h : d.magnitude * 10 ^ e < 2 ^ 96) :
    ∃ r, d.checkedMul (powTen e he) = some r ∧ r.magnitude = d.magnitude * 10 ^ e := by
  unfold checkedMul
  have hten : (powTen e he).mantissa ≠ 0 := (Nat.pow_pos (by norm_num)).ne'
  split
  next hzero =>
    have hm : d.mantissa = 0 := hzero.resolve_right hten
    exact ⟨zero, rfl, by simp [magnitude, hm, zero]⟩
  next =>
    have hscale : d.scale - 28 = 0 := Nat.sub_eq_zero_of_le d.scale_le
    have hk := d.excess_mul_pow (e := e)
    have hks := d.excess_le_scale_iff.mpr h
    have hfits := excess_fits (d.mantissa * 10 ^ e)
    have hdvd : 10 ^ excess (d.mantissa * 10 ^ e) ∣ d.mantissa * 10 ^ e := (pow_dvd_pow 10 hk).mul_left _
    simp only [powTen, Nat.add_zero, hscale, Nat.max_zero]
    generalize excess (d.mantissa * 10 ^ e) = k at hk hks hfits hdvd
    have hround := roundDiv_of_dvd (by positivity) hdvd
    have hle := d.scale_le
    refine ⟨⟨d.neg != false, roundDiv (d.mantissa * 10 ^ e) (10 ^ k), d.scale - k, by rw [hround]; exact hfits,
      by omega⟩, ?_, ?_⟩
    · rw [dropDigits, dif_pos ⟨hks, by omega, by rw [hround]; exact hfits⟩]
      rfl
    · simp only [magnitude, hround]
      rw [Nat.cast_div hdvd (by positivity)]
      have hpow : (10 : ℚ) ^ d.scale = 10 ^ k * 10 ^ (d.scale - k) := by rw [← pow_add, Nat.add_sub_cancel' hks]
      rw [hpow]
      push_cast
      field_simp

theorem checkedMul_powTen_of_le (h : 2 ^ 96 ≤ d.magnitude * 10 ^ e) : d.checkedMul (powTen e he) = none := by
  unfold checkedMul
  have hten : (powTen e he).mantissa ≠ 0 := (Nat.pow_pos (by norm_num)).ne'
  have hm : d.mantissa ≠ 0 := by
    intro hzero
    rw [magnitude, hzero] at h
    norm_num at h
  rw [if_neg (by simp [hm, hten])]
  have hks : d.scale < excess (d.mantissa * 10 ^ e) := by
    rw [← not_le, d.excess_le_scale_iff, not_lt]
    exact h
  simp only [powTen, Nat.add_zero]
  have hmax := le_max_left (excess (d.mantissa * 10 ^ e)) (d.scale - 28)
  rw [dropDigits, dif_neg (by omega), dropDigits, dif_neg (by omega)]
  rfl

end PowTen

theorem isInteger_iff (d : Dec96) : d.IsInteger ↔ d.magnitude = d.trunc := by
  unfold IsInteger magnitude trunc
  constructor
  · intro h
    rw [Nat.cast_div (Nat.dvd_of_mod_eq_zero h) (by positivity)]
    push_cast
    rfl
  · intro h
    rw [div_eq_iff (by positivity)] at h
    have hnat : d.mantissa = d.mantissa / 10 ^ d.scale * 10 ^ d.scale := by exact_mod_cast h
    rw [hnat, Nat.mul_mod_left]

theorem isInteger_of_magnitude {d : Dec96} {n : Nat} (h : d.magnitude = n) : d.IsInteger ∧ d.trunc = n := by
  have hnat : d.mantissa = n * 10 ^ d.scale := by
    rw [magnitude, div_eq_iff (by positivity)] at h
    exact_mod_cast h
  unfold IsInteger trunc
  rw [hnat]
  exact ⟨Nat.mul_mod_left _ _, Nat.mul_div_cancel _ (by positivity)⟩

end Dec96
