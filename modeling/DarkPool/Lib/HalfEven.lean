import Mathlib.Algebra.Order.Floor.Ring
import Mathlib.Algebra.Order.Field.Basic
import Mathlib.Tactic.Linarith
import Mathlib.Tactic.FieldSimp
import Mathlib.Tactic.Positivity

namespace HalfEven

variable {K : Type} [Field K] [LinearOrder K] [FloorRing K]

/-- Nearest integer, a midpoint going to the even neighbour. -/
def round (x : K) : ℤ :=
  if x - ⌊x⌋ < 1 / 2 then ⌊x⌋
  else if 1 / 2 < x - ⌊x⌋ then ⌊x⌋ + 1
  else if ⌊x⌋ % 2 = 0 then ⌊x⌋ else ⌊x⌋ + 1

theorem round_eq_floor_or_succ (x : K) : round x = ⌊x⌋ ∨ (round x = ⌊x⌋ + 1 ∧ 1 / 2 ≤ x - ⌊x⌋) := by
  unfold round
  split
  next => exact Or.inl rfl
  next hlow =>
    have hhalf := not_lt.mp hlow
    split
    next => exact Or.inr ⟨rfl, hhalf⟩
    next =>
      split
      next => exact Or.inl rfl
      next => exact Or.inr ⟨rfl, hhalf⟩

theorem le_round {x : K} {n : ℤ} (h : (n : K) ≤ x) : n ≤ round x := by
  have hf : n ≤ ⌊x⌋ := Int.le_floor.mpr h
  rcases round_eq_floor_or_succ x with he | ⟨he, _⟩ <;> omega

variable [IsStrictOrderedRing K]

theorem round_le {x : K} {n : ℤ} (h : x ≤ (n : K)) : round x ≤ n := by
  have hfloor : ⌊x⌋ ≤ n := by
    have := Int.floor_le_floor h
    simpa using this
  rcases round_eq_floor_or_succ x with he | ⟨he, hhalf⟩
  · omega
  · have hne : ⌊x⌋ ≠ n := by
      intro heq
      rw [heq] at hhalf
      linarith
    omega

/-- Round to `dp` decimal places. -/
def roundDp (x : K) (dp : Nat) : K := (round (x * 10 ^ dp) : K) / 10 ^ dp

theorem pow_ten_pos (dp : Nat) : (0 : K) < 10 ^ dp := by positivity

/-- Rounding never crosses a bound that is itself on the grid. -/
theorem le_roundDp {x : K} {dp : Nat} {n : ℤ} (h : (n : K) / 10 ^ dp ≤ x) :
    (n : K) / 10 ^ dp ≤ roundDp x dp := by
  have hscaled : (n : K) ≤ x * 10 ^ dp := (div_le_iff₀ (pow_ten_pos dp)).mp h
  exact div_le_div_of_nonneg_right (Int.cast_le.mpr (le_round hscaled)) (pow_ten_pos dp).le

theorem roundDp_le {x : K} {dp : Nat} {n : ℤ} (h : x ≤ (n : K) / 10 ^ dp) :
    roundDp x dp ≤ (n : K) / 10 ^ dp := by
  have hscaled : x * 10 ^ dp ≤ (n : K) := (le_div_iff₀ (pow_ten_pos dp)).mp h
  exact div_le_div_of_nonneg_right (Int.cast_le.mpr (round_le hscaled)) (pow_ten_pos dp).le

end HalfEven
