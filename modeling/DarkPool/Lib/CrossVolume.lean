import Mathlib.Algebra.Order.BigOperators.Group.List
import Mathlib.Data.List.Induction
import Mathlib.Data.Set.Finite.Lemmas
import Mathlib.Data.Set.Finite.List
import Mathlib.Order.MinMax

namespace CrossVolume

section Curves

variable {P A : Type} [LinearOrder P] [AddCommMonoid A]

/-- Weight of the buyers willing to pay `p`. -/
def demand (bids : List (P × A)) (p : P) : A :=
  ((bids.filter (fun o => p ≤ o.1)).map Prod.snd).sum

/-- Weight of the sellers willing to accept `p`. -/
def supply (asks : List (P × A)) (p : P) : A :=
  ((asks.filter (fun o => o.1 ≤ p)).map Prod.snd).sum

def volume [LinearOrder A] (bids asks : List (P × A)) (p : P) : A :=
  min (demand bids p) (supply asks p)

theorem demand_eq_zero_of_below {bids : List (P × A)} {p : P} (h : ∀ x ∈ bids, x.1 < p) :
    demand bids p = 0 := by
  have hnil : bids.filter (fun o => p ≤ o.1) = [] := by
    apply List.filter_eq_nil_iff.mpr
    intro x hx
    simpa using h x hx
  simp [demand, hnil]

theorem supply_eq_zero_of_above {asks : List (P × A)} {p : P} (h : ∀ x ∈ asks, p < x.1) :
    supply asks p = 0 := by
  have hnil : asks.filter (fun o => o.1 ≤ p) = [] := by
    apply List.filter_eq_nil_iff.mpr
    intro x hx
    simpa using h x hx
  simp [supply, hnil]

/-- Raising the price to the next buyer's limit loses no buyer. -/
theorem demand_eq_of_gap {bids : List (P × A)} {p q : P} (h : p ≤ q)
    (gap : ∀ x ∈ bids, p ≤ x.1 → q ≤ x.1) : demand bids p = demand bids q := by
  have he : bids.filter (fun o => p ≤ o.1) = bids.filter (fun o => q ≤ o.1) := by
    apply List.filter_congr
    intro x hx
    simpa using ⟨gap x hx, h.trans⟩
  simp [demand, he]

theorem demand_perm {xs ys : List (P × A)} (h : xs.Perm ys) (p : P) : demand xs p = demand ys p :=
  ((h.filter _).map _).sum_eq

theorem supply_perm {xs ys : List (P × A)} (h : xs.Perm ys) (p : P) : supply xs p = supply ys p :=
  ((h.filter _).map _).sum_eq

end Curves

section Order

variable {P A : Type} [AddCommMonoid A] [LinearOrder A] [IsOrderedAddMonoid A]

theorem sum_filter_le_of_imp {xs : List (P × A)} (hw : ∀ x ∈ xs, 0 ≤ x.2)
    (f g : P × A → Bool) (himp : ∀ x ∈ xs, f x = true → g x = true) :
    ((xs.filter f).map Prod.snd).sum ≤ ((xs.filter g).map Prod.snd).sum := by
  induction xs with
  | nil => simp
  | cons x xs ih =>
    have hrest := ih (fun y hy => hw y (List.mem_cons_of_mem x hy))
      (fun y hy => himp y (List.mem_cons_of_mem x hy))
    have hx := hw x (by simp)
    cases hf : f x with
    | true =>
      have hg := himp x (by simp) hf
      simpa [hf, hg] using add_le_add_right hrest x.2
    | false =>
      cases hg : g x with
      | true => simpa [hf, hg] using le_add_of_nonneg_of_le hx hrest
      | false => simpa [hf, hg] using hrest

variable [LinearOrder P]

theorem demand_antitone {bids : List (P × A)} (hw : ∀ x ∈ bids, 0 ≤ x.2) {p q : P} (h : p ≤ q) :
    demand bids q ≤ demand bids p := by
  apply sum_filter_le_of_imp hw
  intro x _ hx
  simp only [decide_eq_true_eq] at hx ⊢
  exact h.trans hx

theorem supply_monotone {asks : List (P × A)} (hw : ∀ x ∈ asks, 0 ≤ x.2) {p q : P} (h : p ≤ q) :
    supply asks p ≤ supply asks q := by
  apply sum_filter_le_of_imp hw
  intro x _ hx
  simp only [decide_eq_true_eq] at hx ⊢
  exact hx.trans h

theorem weight_le_demand {bids : List (P × A)} (hw : ∀ x ∈ bids, 0 ≤ x.2) {x : P × A}
    (hx : x ∈ bids) {p : P} (hp : p ≤ x.1) : x.2 ≤ demand bids p := by
  apply List.single_le_sum
  · intro w hm
    obtain ⟨y, hy, rfl⟩ := List.mem_map.mp hm
    exact hw y (List.mem_filter.mp hy).1
  · exact List.mem_map_of_mem (List.mem_filter.mpr ⟨hx, by simpa using hp⟩)

theorem weight_le_supply {asks : List (P × A)} (hw : ∀ x ∈ asks, 0 ≤ x.2) {x : P × A}
    (hx : x ∈ asks) {p : P} (hp : x.1 ≤ p) : x.2 ≤ supply asks p := by
  apply List.single_le_sum
  · intro w hm
    obtain ⟨y, hy, rfl⟩ := List.mem_map.mp hm
    exact hw y (List.mem_filter.mp hy).1
  · exact List.mem_map_of_mem (List.mem_filter.mpr ⟨hx, by simpa using hp⟩)

/-- Some buyer's limit price matches at least the volume of any other price. -/
theorem volume_le_bid_price (bids : List (P × A)) {asks : List (P × A)} (ha : ∀ x ∈ asks, 0 ≤ x.2) (p : P) :
    volume bids asks p ≤ 0 ∨ ∃ x ∈ bids, volume bids asks p ≤ volume bids asks x.1 := by
  by_cases hsome : ∃ x ∈ bids, p ≤ x.1
  · right
    have hfin : {x | x ∈ bids ∧ p ≤ x.1}.Finite := (List.finite_toSet bids).subset (fun _ hx => hx.1)
    obtain ⟨x, ⟨hx, hp⟩, hmin⟩ := Set.exists_min_image _ Prod.fst hfin hsome
    refine ⟨x, hx, min_le_min ?_ (supply_monotone ha hp)⟩
    exact (demand_eq_of_gap hp (fun y hy hpy => hmin y ⟨hy, hpy⟩)).le
  · left
    have hbelow : ∀ x ∈ bids, x.1 < p := fun x hx => not_le.mp (fun hp => hsome ⟨x, hx, hp⟩)
    exact (min_le_left _ _).trans (demand_eq_zero_of_below hbelow).le

/-- Between two prices that match `v`, every price matches at least `v`. -/
theorem le_volume_between {bids asks : List (P × A)} (hb : ∀ x ∈ bids, 0 ≤ x.2)
    (ha : ∀ x ∈ asks, 0 ≤ x.2) {lo hi p : P} {v : A} (hlo : v ≤ volume bids asks lo)
    (hhi : v ≤ volume bids asks hi) (h1 : lo ≤ p) (h2 : p ≤ hi) : v ≤ volume bids asks p := by
  apply le_min
  · exact (hhi.trans (min_le_left _ _)).trans (demand_antitone hb h2)
  · exact (hlo.trans (min_le_right _ _)).trans (supply_monotone ha h1)

end Order

section Scan

variable {P A : Type} [AddCommMonoid A] [LinearOrder A]

/-- One candidate of the search for the prices of greatest positive volume. -/
def scanStep (v : P → A) (acc : A × List P) (p : P) : A × List P :=
  if acc.1 < v p then (v p, [p])
  else if v p = acc.1 ∧ 0 < v p then (acc.1, acc.2 ++ [p])
  else acc

def scan (v : P → A) (ps : List P) : A × List P := ps.foldl (scanStep v) (0, [])

theorem scan_concat (v : P → A) (ps : List P) (p : P) :
    scan v (ps ++ [p]) = scanStep v (scan v ps) p := by
  simp [scan]

/-- The scan ends with the maximum and, when it is positive, all the prices that reach it. -/
theorem scan_spec (v : P → A) (ps : List P) :
    0 ≤ (scan v ps).1 ∧ (∀ p ∈ ps, v p ≤ (scan v ps).1) ∧
      (scan v ps).2 = ps.filter (fun p => v p = (scan v ps).1 ∧ 0 < v p) ∧
      (0 < (scan v ps).1 → (scan v ps).2 ≠ []) := by
  induction ps using List.reverseRecOn with
  | nil => simp [scan]
  | append_singleton ps p ih =>
    obtain ⟨hnonneg, hmax, htied, hne⟩ := ih
    rw [scan_concat]
    unfold scanStep
    split
    next hlt =>
      refine ⟨hnonneg.trans hlt.le, ?_, ?_, by simp⟩
      · intro q hq
        rcases List.mem_append.mp hq with hq | hq
        · exact (hmax q hq).trans hlt.le
        · simp_all
      · have hnil : ps.filter (fun q => v q = v p ∧ 0 < v q) = [] := by
          apply List.filter_eq_nil_iff.mpr
          intro q hq
          have := (hmax q hq).trans_lt hlt
          simp [this.ne]
        simp only [List.filter_append, hnil, List.nil_append]
        simp [hnonneg.trans_lt hlt]
    next hnlt =>
      have hle := not_lt.mp hnlt
      have hmax' : ∀ q ∈ ps ++ [p], v q ≤ (scan v ps).1 := by
        intro q hq
        rcases List.mem_append.mp hq with hq | hq
        · exact hmax q hq
        · simp_all
      split
      next htie =>
        refine ⟨hnonneg, hmax', ?_, by simp⟩
        rw [List.filter_append, ← htied, List.filter_eq_self.mpr (by simpa using htie)]
      next htie =>
        refine ⟨hnonneg, hmax', ?_, hne⟩
        rw [List.filter_append, ← htied, List.filter_eq_nil_iff.mpr (by simpa using htie),
          List.append_nil]

end Scan

end CrossVolume
