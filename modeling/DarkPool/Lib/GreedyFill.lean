import Mathlib.Algebra.Order.BigOperators.Group.List
import Mathlib.Algebra.Order.Group.MinMax
import Mathlib.Tactic.Abel

namespace GreedyFill

structure Trade (α β A : Type) where
  buyer : α
  seller : β
  amount : A

/-- What one buyer leaves behind after walking the sellers. -/
structure Filled (α β A : Type) where
  residual : A
  sellers : List (β × A)
  trades : List (Trade α β A)

structure Cleared (α β A : Type) where
  buyers : List (α × A)
  sellers : List (β × A)
  trades : List (Trade α β A)

section Sums

variable {α β A : Type} [AddCommMonoid A]

def total (ts : List (Trade α β A)) : A := (ts.map Trade.amount).sum

def bought [DecidableEq α] (ts : List (Trade α β A)) (a : α) : A :=
  total (ts.filter (fun t => t.buyer = a))

def sold [DecidableEq β] (ts : List (Trade α β A)) (b : β) : A :=
  total (ts.filter (fun t => t.seller = b))

@[simp] theorem total_nil : total ([] : List (Trade α β A)) = 0 := rfl

@[simp] theorem total_cons (t : Trade α β A) (ts : List (Trade α β A)) :
    total (t :: ts) = t.amount + total ts := by simp [total]

@[simp] theorem total_append (xs ys : List (Trade α β A)) : total (xs ++ ys) = total xs + total ys := by
  simp [total]

@[simp] theorem sold_nil [DecidableEq β] (b : β) : sold ([] : List (Trade α β A)) b = 0 := rfl

theorem sold_append [DecidableEq β] (xs ys : List (Trade α β A)) (b : β) :
    sold (xs ++ ys) b = sold xs b + sold ys b := by
  simp [sold]

theorem bought_append [DecidableEq α] (xs ys : List (Trade α β A)) (a : α) :
    bought (xs ++ ys) a = bought xs a + bought ys a := by
  simp [bought]

theorem sold_eq_zero [DecidableEq β] {ts : List (Trade α β A)} {b : β}
    (h : ∀ t ∈ ts, t.seller ≠ b) : sold ts b = 0 := by
  have hnil : ts.filter (fun t => t.seller = b) = [] := by
    apply List.filter_eq_nil_iff.mpr
    intro t ht
    simpa using h t ht
  simp [sold, hnil]

theorem bought_eq_zero [DecidableEq α] {ts : List (Trade α β A)} {a : α}
    (h : ∀ t ∈ ts, t.buyer ≠ a) : bought ts a = 0 := by
  have hnil : ts.filter (fun t => t.buyer = a) = [] := by
    apply List.filter_eq_nil_iff.mpr
    intro t ht
    simpa using h t ht
  simp [bought, hnil]

theorem bought_eq_total [DecidableEq α] {ts : List (Trade α β A)} {a : α}
    (h : ∀ t ∈ ts, t.buyer = a) : bought ts a = total ts := by
  have hall : ts.filter (fun t => t.buyer = a) = ts := by
    apply List.filter_eq_self.mpr
    intro t ht
    simpa using h t ht
  simp [bought, hall]

variable [LinearOrder A] [IsOrderedAddMonoid A]

theorem total_nonneg {ts : List (Trade α β A)} (h : ∀ t ∈ ts, 0 < t.amount) : 0 ≤ total ts := by
  apply List.sum_nonneg
  intro x hx
  obtain ⟨t, ht, rfl⟩ := List.mem_map.mp hx
  exact (h t ht).le

theorem sold_nonneg [DecidableEq β] {ts : List (Trade α β A)} (h : ∀ t ∈ ts, 0 < t.amount) (b : β) :
    0 ≤ sold ts b :=
  total_nonneg (fun t ht => h t (List.mem_filter.mp ht).1)

end Sums

section Walk

variable {α β A : Type} [AddCommGroup A] [LinearOrder A]
variable (R : α → β → Prop) [∀ a b, Decidable (R a b)]

/-- One buyer takes what it can from the sellers, in their order. -/
def fillOne (a : α) : A → List (β × A) → Filled α β A
  | r, [] => ⟨r, [], []⟩
  | r, (b, s) :: rest =>
    if r ≤ 0 then ⟨r, (b, s) :: rest, []⟩
    else if s ≤ 0 ∨ ¬R a b then
      let out := fillOne a r rest
      ⟨out.residual, (b, s) :: out.sellers, out.trades⟩
    else
      let out := fillOne a (r - min r s) rest
      ⟨out.residual, (b, s - min r s) :: out.sellers, ⟨a, b, min r s⟩ :: out.trades⟩

def fillAll : List (α × A) → List (β × A) → Cleared α β A
  | [], sellers => ⟨[], sellers, []⟩
  | (a, r) :: rest, sellers =>
    let one := fillOne R a r sellers
    let out := fillAll rest one.sellers
    ⟨(a, one.residual) :: out.buyers, out.sellers, one.trades ++ out.trades⟩

variable {R}

theorem fillOne_trades_nil {a : α} {r : A} (h : r ≤ 0) (sellers : List (β × A)) :
    (fillOne R a r sellers).trades = [] ∧ (fillOne R a r sellers).sellers = sellers := by
  cases sellers with
  | nil => exact ⟨rfl, rfl⟩
  | cons x rest => simp [fillOne, h]

theorem fillOne_keys (a : α) (r : A) (sellers : List (β × A)) :
    (fillOne R a r sellers).sellers.map Prod.fst = sellers.map Prod.fst := by
  fun_induction fillOne R a r sellers with
  | case1 => rfl
  | case2 => rfl
  | case3 r b s rest _ _ out ih => simpa using ih
  | case4 r b s rest _ _ out ih => simpa using ih

theorem fillOne_trade {a : α} {r : A} {sellers : List (β × A)} {t : Trade α β A}
    (h : t ∈ (fillOne R a r sellers).trades) :
    t.buyer = a ∧ R a t.seller ∧ 0 < t.amount ∧ ∃ s, (t.seller, s) ∈ sellers ∧ 0 < s := by
  fun_induction fillOne R a r sellers with
  | case1 => simp at h
  | case2 => simp at h
  | case3 r b s rest _ _ out ih =>
    obtain ⟨hb, hok, hpos, s', hs, hs'⟩ := ih h
    exact ⟨hb, hok, hpos, s', List.mem_cons_of_mem _ hs, hs'⟩
  | case4 r b s rest hr hs out ih =>
    rcases List.mem_cons.mp h with rfl | h
    · obtain ⟨hs1, hs2⟩ := not_or.mp hs
      exact ⟨rfl, not_not.mp hs2, lt_min (not_le.mp hr) (not_le.mp hs1), s, by simp, not_le.mp hs1⟩
    · obtain ⟨hb, hok, hpos, s', hs, hs'⟩ := ih h
      exact ⟨hb, hok, hpos, s', List.mem_cons_of_mem _ hs, hs'⟩

theorem fillOne_seller_mem {a : α} {r : A} {sellers : List (β × A)} {t : Trade α β A}
    (h : t ∈ (fillOne R a r sellers).trades) : t.seller ∈ sellers.map Prod.fst := by
  obtain ⟨_, _, _, s, hs, _⟩ := fillOne_trade h
  exact List.mem_map.mpr ⟨_, hs, rfl⟩

theorem fillOne_residual (a : α) (r : A) (sellers : List (β × A)) :
    (fillOne R a r sellers).residual = r - total (fillOne R a r sellers).trades := by
  fun_induction fillOne R a r sellers with
  | case1 => simp
  | case2 => simp
  | case3 r b s rest _ _ out ih => exact ih
  | case4 r b s rest _ _ out ih =>
    simp only [total_cons, out, ih]
    abel

theorem fillOne_total_sellers (a : α) (r : A) (sellers : List (β × A)) :
    total (fillOne R a r sellers).trades =
      (sellers.map Prod.snd).sum - ((fillOne R a r sellers).sellers.map Prod.snd).sum := by
  fun_induction fillOne R a r sellers with
  | case1 => simp
  | case2 => simp
  | case3 r b s rest _ _ out ih =>
    simp only [List.map_cons, List.sum_cons, out, ih]
    abel
  | case4 r b s rest _ _ out ih =>
    simp only [total_cons, List.map_cons, List.sum_cons, out, ih]
    abel

theorem fillOne_sold_eq_zero [DecidableEq β] {a : α} {r : A} {sellers : List (β × A)} {b : β}
    (h : b ∉ sellers.map Prod.fst) : sold (fillOne R a r sellers).trades b = 0 := by
  apply sold_eq_zero
  rintro t ht rfl
  exact h (fillOne_seller_mem ht)

theorem fillOne_sellers [DecidableEq β] (a : α) (r : A) {sellers : List (β × A)}
    (nodup : (sellers.map Prod.fst).Nodup) :
    (fillOne R a r sellers).sellers =
      sellers.map (fun x => (x.1, x.2 - sold (fillOne R a r sellers).trades x.1)) := by
  fun_induction fillOne R a r sellers with
  | case1 => rfl
  | case2 => simp
  | case3 r b s rest _ _ out ih =>
    obtain ⟨hb, hrest⟩ := List.nodup_cons.mp nodup
    have hzero : sold out.trades b = 0 := fillOne_sold_eq_zero hb
    simp only [List.map_cons, hzero, sub_zero, List.cons.injEq, true_and]
    exact ih hrest
  | case4 r b s rest _ _ out ih =>
    obtain ⟨hb, hrest⟩ := List.nodup_cons.mp nodup
    have hzero : sold out.trades b = 0 := fillOne_sold_eq_zero hb
    have hhead : sold (⟨a, b, min r s⟩ :: out.trades) b = min r s := by
      simpa [sold] using hzero
    simp only [List.map_cons, hhead, List.cons.injEq, true_and]
    refine (ih hrest).trans (List.map_congr_left ?_)
    intro x hx
    have hne : b ≠ x.1 := by
      rintro rfl
      exact hb (List.mem_map.mpr ⟨x, hx, rfl⟩)
    simp [sold, hne, out]

/-- A buyer left unsatisfied has emptied every seller it may trade with. -/
theorem fillOne_exhausts {a : α} {r : A} {sellers : List (β × A)}
    (h : 0 < (fillOne R a r sellers).residual) :
    ∀ x ∈ (fillOne R a r sellers).sellers, R a x.1 → x.2 ≤ 0 := by
  fun_induction fillOne R a r sellers with
  | case1 => simp
  | case2 r b s rest hr => exact absurd hr (not_le.mpr h)
  | case3 r b s rest hr hs out ih =>
    refine List.forall_mem_cons.mpr ⟨fun hok => ?_, ih h⟩
    exact hs.resolve_right (not_not.mpr hok)
  | case4 r b s rest hr hs out ih =>
    refine List.forall_mem_cons.mpr ⟨fun _ => ?_, ih h⟩
    rcases le_total r s with hle | hle
    · have hzero : out.residual ≤ 0 := by
        have hnone := fillOne_trades_nil (R := R) (a := a) (r := r - min r s)
          (by simp [min_eq_left hle]) rest
        have hres : out.residual = r - min r s - total out.trades := fillOne_residual ..
        rw [hres, show out.trades = [] from hnone.1]
        simp [min_eq_left hle]
      exact absurd hzero (not_le.mpr h)
    · simp [min_eq_right hle]

/-- A buyer that reached a later seller has emptied the earlier ones it may trade with. -/
theorem fillOne_priority {a : α} {r : A} {sellers : List (β × A)}
    (nodup : (sellers.map Prod.fst).Nodup) :
    (fillOne R a r sellers).sellers.Pairwise (fun x y =>
      (∃ t ∈ (fillOne R a r sellers).trades, t.seller = y.1) → x.2 ≤ 0 ∨ ¬R a x.1) := by
  fun_induction fillOne R a r sellers with
  | case1 => exact List.Pairwise.nil
  | case2 => exact List.pairwise_of_forall (fun _ _ h => by simp at h)
  | case3 r b s rest hr hs out ih =>
    exact List.pairwise_cons.mpr ⟨fun y _ _ => hs, ih (List.nodup_cons.mp nodup).2⟩
  | case4 r b s rest hr hs out ih =>
    obtain ⟨hb, hrest⟩ := List.nodup_cons.mp nodup
    have hkey : ∀ y ∈ out.sellers, y.1 ≠ b := by
      rintro y hy rfl
      apply hb
      rw [← fillOne_keys (R := R) a (r - min r s) rest]
      exact List.mem_map.mpr ⟨y, hy, rfl⟩
    refine List.pairwise_cons.mpr ⟨?_, ?_⟩
    · rintro y hy ⟨t, ht, hty⟩
      left
      rcases le_total r s with hle | hle
      · have hnone := fillOne_trades_nil (R := R) (a := a) (r := r - min r s)
          (by simp [min_eq_left hle]) rest
        rcases List.mem_cons.mp ht with rfl | ht
        · exact absurd hty.symm (hkey y hy)
        · rw [show out.trades = [] from hnone.1] at ht
          simp at ht
      · simp [min_eq_right hle]
    · refine List.Pairwise.imp_of_mem ?_ (ih hrest)
      rintro x y _ hy hxy ⟨t, ht, hty⟩
      rcases List.mem_cons.mp ht with rfl | ht
      · exact absurd hty.symm (hkey y hy)
      · exact hxy ⟨t, ht, hty⟩

variable [IsOrderedAddMonoid A]

theorem fillOne_residual_nonneg {a : α} {r : A} (sellers : List (β × A)) (h : 0 ≤ r) :
    0 ≤ (fillOne R a r sellers).residual := by
  fun_induction fillOne R a r sellers with
  | case1 => exact h
  | case2 => exact h
  | case3 r b s rest _ _ out ih => exact ih h
  | case4 r b s rest _ _ out ih => exact ih (sub_nonneg.mpr (min_le_left r s))

theorem fillOne_sellers_nonneg {a : α} {r : A} {sellers : List (β × A)}
    (h : ∀ x ∈ sellers, 0 ≤ x.2) : ∀ x ∈ (fillOne R a r sellers).sellers, 0 ≤ x.2 := by
  fun_induction fillOne R a r sellers with
  | case1 => exact h
  | case2 => exact h
  | case3 r b s rest _ _ out ih =>
    obtain ⟨hb, hrest⟩ := List.forall_mem_cons.mp h
    exact List.forall_mem_cons.mpr ⟨hb, ih hrest⟩
  | case4 r b s rest _ _ out ih =>
    obtain ⟨_, hrest⟩ := List.forall_mem_cons.mp h
    exact List.forall_mem_cons.mpr ⟨sub_nonneg.mpr (min_le_right r s), ih hrest⟩

end Walk

end GreedyFill
