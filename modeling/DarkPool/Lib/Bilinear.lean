import Mathlib.Algebra.BigOperators.Group.List.Basic
import Mathlib.Algebra.Group.TypeTags.Basic
import Mathlib.Algebra.Group.Hom.Basic
import Mathlib.GroupTheory.OrderOfElement

namespace Bilinear

variable {G₁ G₂ GT : Type} [AddCommGroup G₁] [AddCommGroup G₂] [CommGroup GT] (e : G₁ →+ G₂ →+ Additive GT)

/-- A pairing into a group written multiplicatively. -/
def pair (P : G₁) (Q : G₂) : GT := (e P Q).toMul

@[simp] theorem pair_zero_left (Q : G₂) : pair e 0 Q = 1 := by
  rw [pair, map_zero]
  rfl

@[simp] theorem pair_add_left (P P' : G₁) (Q : G₂) : pair e (P + P') Q = pair e P Q * pair e P' Q := by
  rw [pair, map_add]
  rfl

@[simp] theorem pair_nsmul_left (n : Nat) (P : G₁) (Q : G₂) : pair e (n • P) Q = pair e P Q ^ n := by
  rw [pair, map_nsmul]
  rfl

/-- The equations `e(aᵢ, bᵢ) · e(α, β) · e(lᵢ, γ) · e(cᵢ, δ) = 1` taken together with weights, where the
sides that do not vary are paired once. -/
theorem weighted_product {I : Type} (w : I → Nat) (a l c : I → G₁) (b : I → G₂) (α : G₁) (β γ δ : G₂) (is : List I) :
    (is.map (fun i => pair e (w i • a i) (b i))).prod * pair e ((is.map w).sum • α) β *
        pair e (is.map (fun i => w i • l i)).sum γ * pair e (is.map (fun i => w i • c i)).sum δ =
      (is.map (fun i => (pair e (a i) (b i) * pair e α β * pair e (l i) γ * pair e (c i) δ) ^ w i)).prod := by
  induction is with
  | nil => simp
  | cons i is ih =>
    simp only [List.map_cons, List.prod_cons, List.sum_cons, add_smul, pair_add_left, pair_nsmul_left, mul_pow] at ih ⊢
    rw [← ih]
    generalize pair e α β ^ (is.map w).sum = x
    ac_rfl

theorem mod_card_nsmul (n : Nat) (P : G₁) : (n % Nat.card G₁) • P = n • P := by
  conv_rhs => rw [← Nat.mod_add_div n (Nat.card G₁), add_smul, mul_smul, card_nsmul_eq_zero', add_zero]

theorem pow_mod_card (n : Nat) (x : GT) : x ^ (n % Nat.card GT) = x ^ n := by
  conv_rhs => rw [← Nat.mod_add_div n (Nat.card GT), pow_add, pow_mul, pow_card_eq_one', one_pow, mul_one]

end Bilinear
