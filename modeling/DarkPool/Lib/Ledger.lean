import Mathlib.Algebra.BigOperators.Fin
import Mathlib.Algebra.Order.BigOperators.Group.Finset
import Mathlib.Data.FinEnum

namespace Ledger

variable {A T : Type}

/-- What all accounts hold of the asset together. -/
def total [Fintype A] (L : A → T → Nat) (t : T) : Nat := ∑ a, L a t

theorem total_zero [Fintype A] (t : T) : total (fun (_ : A) (_ : T) => 0) t = 0 := by simp [total]

theorem le_total [Fintype A] (L : A → T → Nat) (a : A) (t : T) : L a t ≤ total L t :=
  Finset.single_le_sum (f := fun a => L a t) (fun _ _ => Nat.zero_le _) (Finset.mem_univ a)

/-- An amount of the asset `t`, seen from the asset `t'`. -/
def only [DecidableEq T] (t t' : T) (n : Nat) : Nat := if t' = t then n else 0

theorem only_add [DecidableEq T] (t t' : T) (m n : Nat) : only t t' (m + n) = only t t' m + only t t' n := by
  unfold only
  split <;> rfl

variable [DecidableEq A] [DecidableEq T]

/-- The entry of one account in one asset is replaced. -/
def put (L : A → T → Nat) (a : A) (t : T) (n : Nat) : A → T → Nat :=
  fun a' t' => if a' = a ∧ t' = t then n else L a' t'

variable [Fintype A]

/-- Replacing an entry moves the total by the difference, and only that of its asset. -/
theorem total_put (L : A → T → Nat) (a : A) (t : T) (n : Nat) (t' : T) :
    total (put L a t n) t' + only t t' (L a t) = total L t' + only t t' n := by
  unfold total only
  rw [Fintype.sum_eq_add_sum_compl a, Fintype.sum_eq_add_sum_compl a (fun a => L a t')]
  have hrest : ∑ x ∈ {a}ᶜ, put L a t n x t' = ∑ x ∈ {a}ᶜ, L x t' := by
    refine Finset.sum_congr rfl (fun x hx => ?_)
    have hne : x ≠ a := by simpa using hx
    simp [put, hne]
  rw [hrest]
  by_cases ht : t' = t
  · subst ht
    simp [put]
    omega
  · simp [put, ht]

end Ledger
