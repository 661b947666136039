import DarkPool.Auction
import DarkPool.Lib.CrossVolume

namespace DarkPool

/-- A price the scalar encoder can carry without loss of precision. -/
def OnGrid (d : Decimal) : Prop := ∃ n : ℤ, d = n / 10 ^ clearingPriceDp

def priceWeight (o : Order) : Decimal × Decimal := (o.price, o.remainingSize)

theorem matchedAt_eq_volume (bids asks : List Order) (p : Decimal) :
    matchedAt bids asks p = CrossVolume.volume (bids.map priceWeight) (asks.map priceWeight) p := by
  simp only [matchedAt, cumulativeVolume, CrossVolume.volume, CrossVolume.demand, CrossVolume.supply,
    List.filter_map, List.map_map]
  rfl

theorem bestPrices_eq_scan (bids asks : List Order) :
    bestPrices bids asks = CrossVolume.scan (matchedAt bids asks) (candidatePrices bids asks) := rfl

theorem mem_candidatePrices {bids asks : List Order} {p : Decimal} :
    p ∈ candidatePrices bids asks ↔ (∃ b ∈ bids, b.price = p) ∨ ∃ a ∈ asks, a.price = p := by
  simp [candidatePrices, List.mem_insertionSort]

theorem candidatePrices_sorted (bids asks : List Order) :
    (candidatePrices bids asks).Pairwise (· ≤ ·) :=
  List.pairwise_insertionSort (· ≤ ·) _

theorem weights_nonneg {os : List Order} (h : ∀ o ∈ os, 0 ≤ o.remainingSize) :
    ∀ x ∈ os.map priceWeight, 0 ≤ x.2 := by
  intro x hx
  obtain ⟨o, ho, rfl⟩ := List.mem_map.mp hx
  exact h o ho

section Optimum

variable {bids asks : List Order}

/-- The best candidate volume bounds the volume at every price. -/
theorem matchedAt_le_best (ha : ∀ o ∈ asks, 0 ≤ o.remainingSize) (p : Decimal) :
    matchedAt bids asks p ≤ (bestPrices bids asks).1 := by
  obtain ⟨hnonneg, hmax, _, _⟩ := CrossVolume.scan_spec (matchedAt bids asks) (candidatePrices bids asks)
  rw [← bestPrices_eq_scan] at hnonneg hmax
  rw [matchedAt_eq_volume]
  rcases CrossVolume.volume_le_bid_price (bids.map priceWeight) (weights_nonneg ha) p with
    hzero | ⟨x, hx, hle⟩
  · exact hzero.trans hnonneg
  · obtain ⟨o, ho, rfl⟩ := List.mem_map.mp hx
    rw [← matchedAt_eq_volume bids asks (priceWeight o).1] at hle
    exact hle.trans (hmax _ (mem_candidatePrices.mpr (Or.inl ⟨o, ho, rfl⟩)))

/-- With order prices on the grid the rounded midpoint stays inside the tied
interval, so it matches the best volume too. -/
theorem computeClearingPrice_spec (hb : ∀ o ∈ bids, 0 ≤ o.remainingSize)
    (ha : ∀ o ∈ asks, 0 ≤ o.remainingSize) (hbg : ∀ o ∈ bids, OnGrid o.price)
    (hag : ∀ o ∈ asks, OnGrid o.price) (hbest : 0 < (bestPrices bids asks).1) :
    matchedAt bids asks (computeClearingPrice bids asks) = (bestPrices bids asks).1 ∧
      ∃ lo ∈ candidatePrices bids asks, lo ≤ computeClearingPrice bids asks := by
  obtain ⟨_, _, htied, hne⟩ := CrossVolume.scan_spec (matchedAt bids asks) (candidatePrices bids asks)
  rw [← bestPrices_eq_scan] at htied hne
  have hsorted : (bestPrices bids asks).2.Pairwise (· ≤ ·) := by
    rw [htied]
    exact (candidatePrices_sorted bids asks).filter _
  have htie : ∀ p ∈ (bestPrices bids asks).2,
      p ∈ candidatePrices bids asks ∧ matchedAt bids asks p = (bestPrices bids asks).1 := by
    intro p hp
    rw [htied] at hp
    obtain ⟨hc, hv⟩ := List.mem_filter.mp hp
    exact ⟨hc, (of_decide_eq_true hv).1⟩
  have hgrid : ∀ p ∈ candidatePrices bids asks, OnGrid p := by
    intro p hp
    rcases mem_candidatePrices.mp hp with ⟨o, ho, rfl⟩ | ⟨o, ho, rfl⟩
    · exact hbg o ho
    · exact hag o ho
  unfold computeClearingPrice
  split
  next hnil => exact absurd hnil (hne hbest)
  next lo rest hcons =>
    rw [hcons] at hsorted htie
    have hlast := List.getLast_mem (l := lo :: rest) (by simp)
    generalize (lo :: rest).getLast (by simp) = hi at hlast
    obtain ⟨hloc, hlov⟩ := htie lo (by simp)
    obtain ⟨hhic, hhiv⟩ := htie hi hlast
    have hlohi : lo ≤ hi := by
      rcases List.mem_cons.mp hlast with rfl | hmem
      · exact le_rfl
      · exact (List.pairwise_cons.mp hsorted).1 hi hmem
    obtain ⟨n, hn⟩ := hgrid lo hloc
    obtain ⟨m, hm⟩ := hgrid hi hhic
    have h1 : lo ≤ HalfEven.roundDp ((lo + hi) / 2) clearingPriceDp := by
      rw [hn] at hlohi ⊢
      exact HalfEven.le_roundDp (by linarith)
    have h2 : HalfEven.roundDp ((lo + hi) / 2) clearingPriceDp ≤ hi := by
      rw [hm] at hlohi ⊢
      exact HalfEven.roundDp_le (by linarith)
    refine ⟨le_antisymm (matchedAt_le_best ha _) ?_, lo, hloc, h1⟩
    rw [matchedAt_eq_volume]
    exact CrossVolume.le_volume_between (weights_nonneg hb) (weights_nonneg ha)
      (by rw [← matchedAt_eq_volume, hlov]) (by rw [← matchedAt_eq_volume, hhiv]) h1 h2

theorem computeClearingPrice_eq_zero (h : (bestPrices bids asks).1 ≤ 0) :
    computeClearingPrice bids asks = 0 := by
  obtain ⟨_, _, htied, _⟩ := CrossVolume.scan_spec (matchedAt bids asks) (candidatePrices bids asks)
  rw [← bestPrices_eq_scan] at htied
  have hnil : (bestPrices bids asks).2 = [] := by
    rw [htied]
    apply List.filter_eq_nil_iff.mpr
    intro p _ hp
    have hpos := of_decide_eq_true hp
    rw [hpos.1] at hpos
    exact absurd hpos.2 (not_lt.mpr h)
  simp [computeClearingPrice, hnil]

end Optimum

end DarkPool
