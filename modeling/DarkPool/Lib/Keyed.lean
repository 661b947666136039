import Mathlib.Algebra.Order.BigOperators.Group.List
import Mathlib.Data.List.Nodup

namespace Keyed

variable {α β κ A : Type} [AddCommMonoid A]

section Ordered

variable [PartialOrder A] [IsOrderedAddMonoid A]

/-- A list whose entries each answer to one of the other list, under the same key, weighs no more. -/
theorem sum_le_sum {xs ys : List α} {key : α → κ} {f : α → A} (hkeys : (xs.map key).Nodup)
    (h : ∀ x ∈ xs, ∃ y ∈ ys, key y = key x ∧ f x ≤ f y) (hnonneg : ∀ y ∈ ys, 0 ≤ f y) :
    (xs.map f).sum ≤ (ys.map f).sum := by
  induction xs generalizing ys with
  | nil => exact List.sum_nonneg (by simpa using hnonneg)
  | cons x xs ih =>
    obtain ⟨y, hy, hkey, hle⟩ := h x List.mem_cons_self
    obtain ⟨before, after, rfl⟩ := List.append_of_mem hy
    rw [List.map_cons, List.nodup_cons] at hkeys
    have hrest : (xs.map f).sum ≤ ((before ++ after).map f).sum := by
      refine ih hkeys.2 (fun x' hx' => ?_) (fun y' hy' => hnonneg y' (by simp at hy' ⊢; tauto))
      -- The keys differ, so `x'` answers to another entry than `x` does.
      obtain ⟨y', hy', hkey', hle'⟩ := h x' (List.mem_cons_of_mem _ hx')
      refine ⟨y', ?_, hkey', hle'⟩
      rcases List.mem_append.mp hy' with hy' | hy'
      · exact List.mem_append_left _ hy'
      · rcases List.mem_cons.mp hy' with rfl | hy'
        · exact absurd (List.mem_map.mpr ⟨x', hx', hkey'.symm.trans hkey⟩) hkeys.1
        · exact List.mem_append_right _ hy'
    have hsplit : ((before ++ y :: after).map f).sum = f y + ((before ++ after).map f).sum := by
      simp only [List.map_append, List.map_cons, List.sum_append, List.sum_cons]
      exact add_left_comm ..
    rw [List.map_cons, List.sum_cons, hsplit]
    exact add_le_add hle hrest

end Ordered

variable [DecidableEq κ]

/-- Under distinct ids, one entry at most has a given one. -/
theorem sum_ite_eq {ys : List β} {id : β → κ} (hids : (ys.map id).Nodup) {k : κ} (hk : k ∈ ys.map id) (c : A) :
    (ys.map (fun y => if k = id y then c else 0)).sum = c := by
  induction ys with
  | nil => simp at hk
  | cons y ys ih =>
    rw [List.map_cons, List.nodup_cons] at hids
    rw [List.map_cons, List.sum_cons]
    by_cases heq : k = id y
    · have hzero : (ys.map (fun y => if k = id y then c else 0)).sum = 0 := by
        refine List.sum_eq_zero (fun a ha => ?_)
        obtain ⟨y', hy', rfl⟩ := List.mem_map.mp ha
        refine if_neg (fun h' => hids.1 (List.mem_map.mpr ⟨y', hy', ?_⟩))
        rw [← h', heq]
      rw [if_pos heq, hzero, add_zero]
    · rw [if_neg heq, zero_add]
      exact ih hids.2 ((List.mem_cons.mp hk).resolve_left heq)

/-- A sum taken key by key. -/
theorem sum_eq_sum_groups {xs : List α} {ys : List β} {key : α → κ} {id : β → κ} (f : α → A)
    (hids : (ys.map id).Nodup) (hcover : ∀ x ∈ xs, key x ∈ ys.map id) :
    (xs.map f).sum = (ys.map (fun y => ((xs.filter (fun x => key x = id y)).map f).sum)).sum := by
  induction xs with
  | nil => simp
  | cons x xs ih =>
    have hgroup : ∀ y, (((x :: xs).filter (fun x => key x = id y)).map f).sum =
        (if key x = id y then f x else 0) + ((xs.filter (fun x => key x = id y)).map f).sum := by
      intro y
      by_cases heq : key x = id y <;> simp [heq]
    simp only [hgroup]
    rw [List.map_cons, List.sum_cons, List.sum_map_add, sum_ite_eq hids (hcover x List.mem_cons_self),
      ih (fun x' hx' => hcover x' (List.mem_cons_of_mem _ hx'))]

end Keyed
