import DarkPool.Lib.GreedyFill

namespace GreedyFill

variable {α β A : Type} [AddCommGroup A] [LinearOrder A]
variable {R : α → β → Prop} [∀ a b, Decidable (R a b)]

theorem fillAll_buyers_keys (buyers : List (α × A)) (sellers : List (β × A)) :
    (fillAll R buyers sellers).buyers.map Prod.fst = buyers.map Prod.fst := by
  fun_induction fillAll R buyers sellers with
  | case1 => rfl
  | case2 a r rest sellers one out ih => simpa using ih

theorem fillAll_sellers_keys (buyers : List (α × A)) (sellers : List (β × A)) :
    (fillAll R buyers sellers).sellers.map Prod.fst = sellers.map Prod.fst := by
  fun_induction fillAll R buyers sellers with
  | case1 => rfl
  | case2 a r rest sellers one out ih => exact ih.trans (fillOne_keys ..)

theorem fillAll_trade_buyer {buyers : List (α × A)} {sellers : List (β × A)} {t : Trade α β A}
    (h : t ∈ (fillAll R buyers sellers).trades) :
    t.buyer ∈ buyers.map Prod.fst ∧ R t.buyer t.seller ∧ 0 < t.amount := by
  fun_induction fillAll R buyers sellers with
  | case1 => simp at h
  | case2 a r rest sellers one out ih =>
    rcases List.mem_append.mp h with h | h
    · obtain ⟨rfl, hok, hpos, _⟩ := fillOne_trade h
      exact ⟨by simp, hok, hpos⟩
    · obtain ⟨hb, hok, hpos⟩ := ih h
      exact ⟨List.mem_cons_of_mem _ hb, hok, hpos⟩

theorem fillAll_seller_mem {buyers : List (α × A)} {sellers : List (β × A)} {t : Trade α β A}
    (h : t ∈ (fillAll R buyers sellers).trades) : t.seller ∈ sellers.map Prod.fst := by
  fun_induction fillAll R buyers sellers with
  | case1 => simp at h
  | case2 a r rest sellers one out ih =>
    rcases List.mem_append.mp h with h | h
    · exact fillOne_seller_mem h
    · have hkeys : one.sellers.map Prod.fst = sellers.map Prod.fst := fillOne_keys ..
      exact hkeys ▸ ih h

theorem fillAll_total_buyers (buyers : List (α × A)) (sellers : List (β × A)) :
    total (fillAll R buyers sellers).trades =
      (buyers.map Prod.snd).sum - ((fillAll R buyers sellers).buyers.map Prod.snd).sum := by
  fun_induction fillAll R buyers sellers with
  | case1 => simp
  | case2 a r rest sellers one out ih =>
    have hone : one.residual = r - total one.trades := fillOne_residual ..
    simp only [total_append, List.map_cons, List.sum_cons, hone, out, ih]
    abel

theorem fillAll_total_sellers (buyers : List (α × A)) (sellers : List (β × A)) :
    total (fillAll R buyers sellers).trades =
      (sellers.map Prod.snd).sum - ((fillAll R buyers sellers).sellers.map Prod.snd).sum := by
  fun_induction fillAll R buyers sellers with
  | case1 => simp
  | case2 a r rest sellers one out ih =>
    have hone : total one.trades = _ := fillOne_total_sellers a r sellers
    simp only [total_append, hone, out, ih]
    abel

theorem fillAll_buyers [DecidableEq α] {buyers : List (α × A)} (sellers : List (β × A))
    (nodup : (buyers.map Prod.fst).Nodup) :
    (fillAll R buyers sellers).buyers =
      buyers.map (fun x => (x.1, x.2 - bought (fillAll R buyers sellers).trades x.1)) := by
  fun_induction fillAll R buyers sellers with
  | case1 => rfl
  | case2 a r rest sellers one out ih =>
    obtain ⟨ha, hrest⟩ := List.nodup_cons.mp nodup
    have hone : one.residual = r - bought one.trades a := by
      rw [bought_eq_total (fun t ht => (fillOne_trade ht).1)]
      exact fillOne_residual ..
    have hout : bought out.trades a = 0 := by
      apply bought_eq_zero
      rintro t ht rfl
      exact ha (fillAll_trade_buyer ht).1
    simp only [List.map_cons, bought_append, hout, add_zero, hone, List.cons.injEq, true_and]
    refine (ih hrest).trans (List.map_congr_left ?_)
    intro x hx
    have hzero : bought one.trades x.1 = 0 := by
      apply bought_eq_zero
      intro t ht heq
      have hta := (fillOne_trade ht).1
      exact ha (hta ▸ heq ▸ List.mem_map.mpr ⟨x, hx, rfl⟩)
    simp [hzero, out]

theorem fillAll_sellers [DecidableEq β] (buyers : List (α × A)) {sellers : List (β × A)}
    (nodup : (sellers.map Prod.fst).Nodup) :
    (fillAll R buyers sellers).sellers =
      sellers.map (fun x => (x.1, x.2 - sold (fillAll R buyers sellers).trades x.1)) := by
  fun_induction fillAll R buyers sellers with
  | case1 => simp
  | case2 a r rest sellers one out ih =>
    have hone : one.sellers = sellers.map (fun x => (x.1, x.2 - sold one.trades x.1)) :=
      fillOne_sellers a r nodup
    have hkeys : (one.sellers.map Prod.fst).Nodup := by
      rw [show one.sellers.map Prod.fst = sellers.map Prod.fst from fillOne_keys ..]
      exact nodup
    have hih : out.sellers = one.sellers.map (fun x => (x.1, x.2 - sold out.trades x.1)) := ih hkeys
    rw [hih, hone, List.map_map]
    apply List.map_congr_left
    intro x _
    simp only [Function.comp_apply, sold_append, Prod.mk.injEq, true_and]
    abel

theorem sum_eq_zero_of_nonneg_nonpos {γ : Type} {xs : List (γ × A)} (h0 : ∀ x ∈ xs, 0 ≤ x.2)
    (h1 : ∀ x ∈ xs, x.2 ≤ 0) : (xs.map Prod.snd).sum = 0 := by
  apply List.sum_eq_zero
  intro y hy
  obtain ⟨x, hx, rfl⟩ := List.mem_map.mp hy
  exact le_antisymm (h1 x hx) (h0 x hx)

section Ordered

variable [IsOrderedAddMonoid A]

theorem fillAll_buyers_nonneg {buyers : List (α × A)} (sellers : List (β × A))
    (h : ∀ x ∈ buyers, 0 ≤ x.2) : ∀ x ∈ (fillAll R buyers sellers).buyers, 0 ≤ x.2 := by
  fun_induction fillAll R buyers sellers with
  | case1 => exact h
  | case2 a r rest sellers one out ih =>
    obtain ⟨hr, hrest⟩ := List.forall_mem_cons.mp h
    exact List.forall_mem_cons.mpr ⟨fillOne_residual_nonneg sellers hr, ih hrest⟩

theorem fillAll_sellers_nonneg (buyers : List (α × A)) {sellers : List (β × A)}
    (h : ∀ x ∈ sellers, 0 ≤ x.2) : ∀ x ∈ (fillAll R buyers sellers).sellers, 0 ≤ x.2 := by
  fun_induction fillAll R buyers sellers with
  | case1 => exact h
  | case2 a r rest sellers one out ih => exact ih (fillOne_sellers_nonneg h)

/-- Walking only lowers a seller: what is left at the end was there before. -/
theorem fillAll_sellers_le [DecidableEq β] {buyers : List (α × A)} {sellers : List (β × A)}
    (nodup : (sellers.map Prod.fst).Nodup) {b : β} {s : A}
    (h : (b, s) ∈ (fillAll R buyers sellers).sellers) : ∃ s', (b, s') ∈ sellers ∧ s ≤ s' := by
  rw [fillAll_sellers buyers nodup] at h
  obtain ⟨⟨b', s'⟩, hx, he⟩ := List.mem_map.mp h
  obtain ⟨rfl, rfl⟩ := Prod.mk.inj he
  exact ⟨s', hx, sub_le_self _ (sold_nonneg (fun t ht => (fillAll_trade_buyer ht).2.2) _)⟩

theorem fillAll_trade_seller [DecidableEq β] {buyers : List (α × A)} {sellers : List (β × A)}
    (nodup : (sellers.map Prod.fst).Nodup) {t : Trade α β A}
    (h : t ∈ (fillAll R buyers sellers).trades) : ∃ s, (t.seller, s) ∈ sellers ∧ 0 < s := by
  fun_induction fillAll R buyers sellers with
  | case1 => simp at h
  | case2 a r rest sellers one out ih =>
    rcases List.mem_append.mp h with h | h
    · exact (fillOne_trade h).2.2.2
    · have hkeys : one.sellers.map Prod.fst = sellers.map Prod.fst := fillOne_keys ..
      obtain ⟨s, hs, hpos⟩ := ih (hkeys ▸ nodup) h
      rw [show one.sellers = _ from fillOne_sellers a r nodup] at hs
      obtain ⟨⟨b', s'⟩, hx, he⟩ := List.mem_map.mp hs
      obtain ⟨rfl, rfl⟩ := Prod.mk.inj he
      have hsold : 0 ≤ sold one.trades t.seller :=
        sold_nonneg (fun u hu => (fillOne_trade hu).2.2.1) _
      exact ⟨s', hx, hpos.trans_le (sub_le_self _ hsold)⟩

/-- No compatible buyer and seller are both left unsatisfied. -/
theorem fillAll_exhausts [DecidableEq β] {buyers : List (α × A)} {sellers : List (β × A)}
    (nodup : (sellers.map Prod.fst).Nodup) :
    ∀ x ∈ (fillAll R buyers sellers).buyers, ∀ y ∈ (fillAll R buyers sellers).sellers,
      0 < x.2 → 0 < y.2 → ¬R x.1 y.1 := by
  fun_induction fillAll R buyers sellers with
  | case1 => simp
  | case2 a r rest sellers one out ih =>
    have hkeys : one.sellers.map Prod.fst = sellers.map Prod.fst := fillOne_keys ..
    refine List.forall_mem_cons.mpr ⟨?_, ih (hkeys ▸ nodup)⟩
    intro y hy hres hpos hok
    obtain ⟨s', hs', hle⟩ := fillAll_sellers_le (hkeys ▸ nodup) hy
    exact absurd (hle.trans (fillOne_exhausts hres _ hs' hok)) (not_le.mpr hpos)

/-- Behind an unsatisfied buyer, a later buyer only reaches sellers the first may not trade with. -/
theorem fillAll_buyer_priority [DecidableEq β] {buyers : List (α × A)} {sellers : List (β × A)}
    (hb : (buyers.map Prod.fst).Nodup) (hs : (sellers.map Prod.fst).Nodup) :
    (fillAll R buyers sellers).buyers.Pairwise (fun x y => 0 < x.2 →
      ∀ t ∈ (fillAll R buyers sellers).trades, t.buyer = y.1 → ¬R x.1 t.seller) := by
  fun_induction fillAll R buyers sellers with
  | case1 => exact List.Pairwise.nil
  | case2 a r rest sellers one out ih =>
    obtain ⟨ha, hrest⟩ := List.nodup_cons.mp hb
    have hkeys : one.sellers.map Prod.fst = sellers.map Prod.fst := fillOne_keys ..
    have hlater : ∀ y ∈ out.buyers, ∀ t ∈ one.trades, t.buyer ≠ y.1 := by
      intro y hy t ht heq
      apply ha
      rw [← fillAll_buyers_keys (R := R) rest one.sellers, ← (fillOne_trade ht).1, heq]
      exact List.mem_map.mpr ⟨y, hy, rfl⟩
    refine List.pairwise_cons.mpr ⟨?_, ?_⟩
    · intro y hy hres t ht hty hok
      rcases List.mem_append.mp ht with ht | ht
      · exact hlater y hy t ht hty
      · obtain ⟨s', hs', hpos⟩ := fillAll_trade_seller (hkeys ▸ hs) ht
        exact absurd (fillOne_exhausts hres _ hs' hok) (not_le.mpr hpos)
    · refine List.Pairwise.imp_of_mem ?_ (ih hrest (hkeys ▸ hs))
      intro x y _ hy hxy hres t ht hty
      rcases List.mem_append.mp ht with ht | ht
      · exact absurd hty (hlater y hy t ht)
      · exact hxy hres t ht hty

/-- Behind an unsatisfied seller, a later seller is only reached by buyers the first may not
trade with. -/
theorem fillAll_seller_priority [DecidableEq β] {buyers : List (α × A)} {sellers : List (β × A)}
    (hs : (sellers.map Prod.fst).Nodup) :
    (fillAll R buyers sellers).sellers.Pairwise (fun x y => 0 < x.2 →
      ∀ t ∈ (fillAll R buyers sellers).trades, t.seller = y.1 → ¬R t.buyer x.1) := by
  fun_induction fillAll R buyers sellers with
  | case1 => exact List.pairwise_of_forall (fun _ _ _ t ht => by simp at ht)
  | case2 a r rest sellers one out ih =>
    have hkeys : one.sellers.map Prod.fst = sellers.map Prod.fst := fillOne_keys ..
    have hout : out.sellers = one.sellers.map (fun x => (x.1, x.2 - sold out.trades x.1)) :=
      fillAll_sellers rest (hkeys ▸ hs)
    have hfirst : out.sellers.Pairwise (fun x y => 0 < x.2 →
        ∀ t ∈ one.trades, t.seller = y.1 → ¬R t.buyer x.1) := by
      rw [hout]
      refine List.pairwise_map.mpr ((fillOne_priority hs).imp ?_)
      intro x y hxy hpos t ht hty
      have hsold : 0 ≤ sold out.trades x.1 :=
        sold_nonneg (fun u hu => (fillAll_trade_buyer hu).2.2) _
      rw [(fillOne_trade ht).1]
      exact (hxy ⟨t, ht, hty⟩).resolve_left (not_le.mpr (hpos.trans_le (sub_le_self _ hsold)))
    refine (hfirst.and (ih (hkeys ▸ hs))).imp ?_
    rintro x y ⟨h1, h2⟩ hpos t ht
    rcases List.mem_append.mp ht with ht | ht
    · exact h1 hpos t ht
    · exact h2 hpos t ht

theorem sum_snd_nonneg {γ : Type} {xs : List (γ × A)} (h : ∀ x ∈ xs, 0 ≤ x.2) :
    0 ≤ (xs.map Prod.snd).sum := by
  apply List.sum_nonneg
  intro y hy
  obtain ⟨x, hx, rfl⟩ := List.mem_map.mp hy
  exact h x hx

/-- When every buyer may trade with every seller, one side is served in full. -/
theorem fillAll_one_side_served [DecidableEq β] {buyers : List (α × A)} {sellers : List (β × A)}
    (hs : (sellers.map Prod.fst).Nodup) (hok : ∀ x ∈ buyers, ∀ y ∈ sellers, R x.1 y.1) :
    (∀ x ∈ (fillAll R buyers sellers).buyers, x.2 ≤ 0) ∨
      ∀ y ∈ (fillAll R buyers sellers).sellers, y.2 ≤ 0 := by
  by_contra hcon
  obtain ⟨hx, hy⟩ := not_or.mp hcon
  push Not at hx hy
  obtain ⟨x, hx, hxpos⟩ := hx
  obtain ⟨y, hy, hypos⟩ := hy
  have hxk : x.1 ∈ buyers.map Prod.fst := by
    rw [← fillAll_buyers_keys (R := R) buyers sellers]
    exact List.mem_map.mpr ⟨x, hx, rfl⟩
  have hyk : y.1 ∈ sellers.map Prod.fst := by
    rw [← fillAll_sellers_keys (R := R) buyers sellers]
    exact List.mem_map.mpr ⟨y, hy, rfl⟩
  obtain ⟨x', hx', hxe⟩ := List.mem_map.mp hxk
  obtain ⟨y', hy', hye⟩ := List.mem_map.mp hyk
  exact fillAll_exhausts hs x hx y hy hxpos hypos (hxe ▸ hye ▸ hok x' hx' y' hy')

/-- When every buyer may trade with every seller, the shorter side is the volume. -/
theorem fillAll_total_eq_min [DecidableEq β] {buyers : List (α × A)} {sellers : List (β × A)}
    (hs : (sellers.map Prod.fst).Nodup) (hb : ∀ x ∈ buyers, 0 ≤ x.2) (hw : ∀ x ∈ sellers, 0 ≤ x.2)
    (hok : ∀ x ∈ buyers, ∀ y ∈ sellers, R x.1 y.1) :
    total (fillAll R buyers sellers).trades =
      min (buyers.map Prod.snd).sum (sellers.map Prod.snd).sum := by
  have hbn := fillAll_buyers_nonneg (R := R) sellers hb
  have hsn := fillAll_sellers_nonneg (R := R) buyers hw
  have htb := fillAll_total_buyers (R := R) buyers sellers
  have hts := fillAll_total_sellers (R := R) buyers sellers
  have hleb := sub_le_self (buyers.map Prod.snd).sum (sum_snd_nonneg hbn)
  have hles := sub_le_self (sellers.map Prod.snd).sum (sum_snd_nonneg hsn)
  rcases fillAll_one_side_served hs hok with hserved | hserved
  · have hzero := sum_eq_zero_of_nonneg_nonpos hbn hserved
    rw [hzero, sub_zero] at htb
    rw [htb, min_eq_left]
    exact htb ▸ hts ▸ hles
  · have hzero := sum_eq_zero_of_nonneg_nonpos hsn hserved
    rw [hzero, sub_zero] at hts
    rw [hts, min_eq_right]
    exact hts ▸ htb ▸ hleb

end Ordered

end GreedyFill
