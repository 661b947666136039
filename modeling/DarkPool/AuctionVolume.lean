import DarkPool.AuctionPlan
import DarkPool.AuctionPrice

namespace DarkPool

open GreedyFill

/-- A positive amount the scalar encoder accepts: a multiple of 1e-8 below 2^60 units. -/
def PositiveEncodable (d : Decimal) : Prop := ∃ n : ℕ, 0 < n ∧ n < 2 ^ 60 ∧ d = n / 10 ^ clearingPriceDp

theorem PositiveEncodable.pos {d : Decimal} (h : PositiveEncodable d) : 0 < d := by
  obtain ⟨n, hn, _, rfl⟩ := h
  have : (0 : ℚ) < n := by exact_mod_cast hn
  positivity

theorem PositiveEncodable.onGrid {d : Decimal} (h : PositiveEncodable d) : OnGrid d := by
  obtain ⟨n, _, _, rfl⟩ := h
  exact ⟨n, by simp⟩

instance : Std.Total bidPriority where
  total a b := by
    unfold bidPriority
    rcases lt_trichotomy a.price b.price with h | h | h
    · exact Or.inr (Or.inl h)
    · rcases Nat.le_total a.seq b.seq with hs | hs
      · exact Or.inl (Or.inr ⟨h, hs⟩)
      · exact Or.inr (Or.inr ⟨h.symm, hs⟩)
    · exact Or.inl (Or.inl h)

instance : Std.Total askPriority where
  total a b := by
    unfold askPriority
    rcases lt_trichotomy a.price b.price with h | h | h
    · exact Or.inl (Or.inl h)
    · rcases Nat.le_total a.seq b.seq with hs | hs
      · exact Or.inl (Or.inr ⟨h, hs⟩)
      · exact Or.inr (Or.inr ⟨h.symm, hs⟩)
    · exact Or.inr (Or.inl h)

instance : IsTrans Order bidPriority where
  trans a b c := by
    rintro (h1 | ⟨h1, s1⟩) (h2 | ⟨h2, s2⟩)
    · exact Or.inl (h2.trans h1)
    · exact Or.inl (h2 ▸ h1)
    · exact Or.inl (h1 ▸ h2)
    · exact Or.inr ⟨h1.trans h2, s1.trans s2⟩

instance : IsTrans Order askPriority where
  trans a b c := by
    rintro (h1 | ⟨h1, s1⟩) (h2 | ⟨h2, s2⟩)
    · exact Or.inl (h1.trans h2)
    · exact Or.inl (h2 ▸ h1)
    · exact Or.inl (h1 ▸ h2)
    · exact Or.inr ⟨h1.trans h2, s1.trans s2⟩

theorem bidPriority.price_le {a b : Order} (h : bidPriority a b) : b.price ≤ a.price :=
  h.elim le_of_lt (fun h => h.1.ge)

theorem askPriority.price_le {a b : Order} (h : askPriority a b) : a.price ≤ b.price :=
  h.elim le_of_lt (fun h => h.1.le)

theorem matchedAt_perm {bids bids' asks asks' : List Order} (hb : bids.Perm bids') (ha : asks.Perm asks')
    (p : Decimal) : matchedAt bids asks p = matchedAt bids' asks' p := by
  unfold matchedAt cumulativeVolume
  rw [((hb.filter _).map _).sum_eq, ((ha.filter _).map _).sum_eq]

theorem matchedAt_sorted (bids asks : List Order) (p : Decimal) :
    matchedAt (bids.insertionSort bidPriority) (asks.insertionSort askPriority) p =
      matchedAt bids asks p :=
  matchedAt_perm (List.perm_insertionSort _ _) (List.perm_insertionSort _ _) p

theorem sorted_head_best {bids : List Order} {bid b : Order}
    (h : (bids.insertionSort bidPriority).head? = some bid) (hb : b ∈ bids) : b.price ≤ bid.price := by
  have hs := List.pairwise_insertionSort bidPriority bids
  have hm := (List.mem_insertionSort bidPriority).mpr hb
  obtain ⟨tail, he⟩ := List.head?_eq_some_iff.mp h
  rw [he] at hs hm
  rcases List.mem_cons.mp hm with rfl | hm
  · exact le_rfl
  · exact ((List.pairwise_cons.mp hs).1 b hm).price_le

theorem sorted_head_cheapest {asks : List Order} {ask a : Order}
    (h : (asks.insertionSort askPriority).head? = some ask) (ha : a ∈ asks) : ask.price ≤ a.price := by
  have hs := List.pairwise_insertionSort askPriority asks
  have hm := (List.mem_insertionSort askPriority).mpr ha
  obtain ⟨tail, he⟩ := List.head?_eq_some_iff.mp h
  rw [he] at hs hm
  rcases List.mem_cons.mp hm with rfl | hm
  · exact le_rfl
  · exact ((List.pairwise_cons.mp hs).1 a hm).price_le

theorem matchedAt_pos_crosses {bids asks : List Order} {p : Decimal} (h : 0 < matchedAt bids asks p) :
    (∃ b ∈ bids, p ≤ b.price) ∧ ∃ a ∈ asks, a.price ≤ p := by
  rw [matchedAt_eq_volume] at h
  obtain ⟨hd, hs⟩ := lt_min_iff.mp h
  constructor
  · by_contra hcon
    push Not at hcon
    refine hd.ne' (CrossVolume.demand_eq_zero_of_below ?_)
    intro x hx
    obtain ⟨o, ho, rfl⟩ := List.mem_map.mp hx
    exact hcon o ho
  · by_contra hcon
    push Not at hcon
    refine hs.ne' (CrossVolume.supply_eq_zero_of_above ?_)
    intro x hx
    obtain ⟨o, ho, rfl⟩ := List.mem_map.mp hx
    exact hcon o ho

theorem matchedAt_nonneg {bids asks : List Order} (hb : ∀ o ∈ bids, 0 < o.remainingSize)
    (ha : ∀ o ∈ asks, 0 < o.remainingSize) (p : Decimal) : 0 ≤ matchedAt bids asks p := by
  apply le_min
  · apply List.sum_nonneg
    intro x hx
    obtain ⟨o, ho, rfl⟩ := List.mem_map.mp hx
    exact (hb o (List.mem_filter.mp ho).1).le
  · apply List.sum_nonneg
    intro x hx
    obtain ⟨o, ho, rfl⟩ := List.mem_map.mp hx
    exact (ha o (List.mem_filter.mp ho).1).le

/-- With no self-trades in the way the greedy fill moves the whole matchable volume. -/
theorem fillPlan_total {bids asks : List Order} (price : Decimal) (hnodup : asks.Nodup)
    (hb : ∀ o ∈ bids, 0 < o.remainingSize) (ha : ∀ o ∈ asks, 0 < o.remainingSize)
    (hself : ∀ b ∈ bids, ∀ a ∈ asks, b.trader ≠ a.trader) :
    total (fillPlan bids asks price).trades = matchedAt bids asks price := by
  have hbids : eligibleBids bids price = bids.filter (fun o => price ≤ o.price) := by
    apply List.filter_congr
    intro o ho
    simp [hb o ho]
  have hasks : eligibleAsks asks price = asks.filter (fun o => o.price ≤ price) := by
    apply List.filter_congr
    intro o ho
    simp [ha o ho]
  unfold fillPlan
  rw [hbids, hasks, fillAll_total_eq_min, map_weigh_snd, map_weigh_snd]
  · rfl
  · rw [map_weigh_fst]
    exact hnodup.filter _
  · intro x hx
    obtain ⟨o, ho, rfl⟩ := List.mem_map.mp hx
    exact (hb o (List.mem_filter.mp ho).1).le
  · intro x hx
    obtain ⟨o, ho, rfl⟩ := List.mem_map.mp hx
    exact (ha o (List.mem_filter.mp ho).1).le
  · intro x hx y hy
    obtain ⟨b, hbm, rfl⟩ := List.mem_map.mp hx
    obtain ⟨a, ham, rfl⟩ := List.mem_map.mp hy
    exact hself b (List.mem_filter.mp hbm).1 a (List.mem_filter.mp ham).1

section Auction

variable {auctionId : Uuid} {pair : String} {bids asks : List Order}

theorem runAuction_optimal (hb : ∀ o ∈ bids, 0 ≤ o.remainingSize) (ha : ∀ o ∈ asks, 0 ≤ o.remainingSize)
    (hbg : ∀ o ∈ bids, OnGrid o.price) (hag : ∀ o ∈ asks, OnGrid o.price) {r : AuctionResult}
    (h : runAuction auctionId pair bids asks = some r) (p : Decimal) :
    matchedAt bids asks p ≤ matchedAt bids asks r.clearingPrice := by
  obtain ⟨hprice, hpos, -, -, -⟩ := runSorted_eq_some h
  rw [← matchedAt_sorted bids asks p, ← matchedAt_sorted bids asks r.clearingPrice, hprice]
  have hbs : ∀ o ∈ bids.insertionSort bidPriority, o ∈ bids := fun o => (List.mem_insertionSort _).mp
  have has : ∀ o ∈ asks.insertionSort askPriority, o ∈ asks := fun o => (List.mem_insertionSort _).mp
  have hbest : 0 < (bestPrices (bids.insertionSort bidPriority) (asks.insertionSort askPriority)).1 := by
    by_contra hle
    rw [hprice, computeClearingPrice_eq_zero (not_lt.mp hle)] at hpos
    exact lt_irrefl 0 hpos
  rw [(computeClearingPrice_spec (fun o ho => hb o (hbs o ho)) (fun o ho => ha o (has o ho))
    (fun o ho => hbg o (hbs o ho)) (fun o ho => hag o (has o ho)) hbest).1]
  exact matchedAt_le_best (fun o ho => ha o (has o ho)) p

theorem runAuction_matchedVolume (hnodup : asks.Nodup)
    (hb : ∀ o ∈ bids, 0 < o.remainingSize) (ha : ∀ o ∈ asks, 0 < o.remainingSize)
    (hself : ∀ b ∈ bids, ∀ a ∈ asks, b.trader ≠ a.trader) {r : AuctionResult}
    (h : runAuction auctionId pair bids asks = some r) :
    r.matchedVolume = matchedAt bids asks r.clearingPrice := by
  obtain ⟨-, -, -, hlist, hvol⟩ := runSorted_eq_some h
  rw [hvol, hlist, sum_size_matchOrders, ← matchedAt_sorted bids asks r.clearingPrice]
  apply fillPlan_total
  · exact (List.perm_insertionSort askPriority asks).symm.nodup hnodup
  · exact fun o ho => hb o ((List.mem_insertionSort _).mp ho)
  · exact fun o ho => ha o ((List.mem_insertionSort _).mp ho)
  · exact fun b hbm a ham =>
      hself b ((List.mem_insertionSort _).mp hbm) a ((List.mem_insertionSort _).mp ham)

theorem runAuction_matchedVolume_pos {r : AuctionResult}
    (h : runAuction auctionId pair bids asks = some r) : 0 < r.matchedVolume := by
  obtain ⟨-, -, hne, hlist, hvol⟩ := runSorted_eq_some h
  rw [hvol]
  apply List.sum_pos
  · intro x hx
    obtain ⟨m, hm, rfl⟩ := List.mem_map.mp hx
    rw [hlist] at hm
    obtain ⟨b, _, a, _, _, hpos, _⟩ := mem_matchOrders hm
    exact hpos
  · simpa using hne

/-- A positive matchable volume at some price makes the auction trade. -/
theorem runAuction_isSome (hnodup : asks.Nodup)
    (hb : ∀ o ∈ bids, 0 < o.remainingSize) (ha : ∀ o ∈ asks, 0 < o.remainingSize)
    (hbg : ∀ o ∈ bids, 0 < o.price ∧ OnGrid o.price) (hag : ∀ o ∈ asks, 0 < o.price ∧ OnGrid o.price)
    (hself : ∀ b ∈ bids, ∀ a ∈ asks, b.trader ≠ a.trader) {p : Decimal}
    (hp : 0 < matchedAt bids asks p) : runAuction auctionId pair bids asks ≠ none := by
  intro hnone
  have hbs : ∀ o ∈ bids.insertionSort bidPriority, o ∈ bids := fun o => (List.mem_insertionSort _).mp
  have has : ∀ o ∈ asks.insertionSort askPriority, o ∈ asks := fun o => (List.mem_insertionSort _).mp
  have hasle : ∀ o ∈ asks.insertionSort askPriority, 0 ≤ o.remainingSize := fun o ho => (ha o (has o ho)).le
  obtain ⟨⟨b, hbm, hbp⟩, a, ham, hap⟩ := matchedAt_pos_crosses hp
  rw [← matchedAt_sorted] at hp
  have hbest := hp.trans_le (matchedAt_le_best hasle p)
  obtain ⟨hvol, lo, hlo, hlole⟩ := computeClearingPrice_spec (fun o ho => (hb o (hbs o ho)).le) hasle
    (fun o ho => (hbg o (hbs o ho)).2) (fun o ho => (hag o (has o ho)).2) hbest
  have hlopos : 0 < lo := by
    rcases mem_candidatePrices.mp hlo with ⟨o, ho, rfl⟩ | ⟨o, ho, rfl⟩
    · exact (hbg o (hbs o ho)).1
    · exact (hag o (has o ho)).1
  obtain ⟨bid, hbid⟩ : ∃ bid, (bids.insertionSort bidPriority).head? = some bid :=
    Option.isSome_iff_exists.mp (List.isSome_head?.mpr
      (List.ne_nil_of_mem ((List.mem_insertionSort bidPriority).mpr hbm)))
  obtain ⟨ask, hask⟩ : ∃ ask, (asks.insertionSort askPriority).head? = some ask :=
    Option.isSome_iff_exists.mp (List.isSome_head?.mpr
      (List.ne_nil_of_mem ((List.mem_insertionSort askPriority).mpr ham)))
  have hcross : ask.price ≤ bid.price :=
    (sorted_head_cheapest hask ham).trans (hap.trans (hbp.trans (sorted_head_best hbid hbm)))
  have hempty := runSorted_eq_none_iff.mp hnone bid ask hbid hask hcross (hlopos.trans_le hlole)
  have htotal := fillPlan_total (computeClearingPrice (bids.insertionSort bidPriority)
      (asks.insertionSort askPriority))
    ((List.perm_insertionSort askPriority asks).symm.nodup hnodup)
    (fun o ho => hb o (hbs o ho)) (fun o ho => ha o (has o ho))
    (fun b hb a ha => hself b (hbs b hb) a (has a ha))
  rw [← sum_size_matchOrders, hempty, hvol] at htotal
  exact hbest.ne htotal

/-- The clearing price maximises the matchable volume over every price, and with
no trader on both sides the auction moves that volume exactly. -/
theorem runAuction_maximizes_volume (auctionId : Uuid) (pair : String) (bids asks : List Order)
    (hb : ∀ o ∈ bids, PositiveEncodable o.price ∧ PositiveEncodable o.remainingSize)
    (ha : ∀ o ∈ asks, PositiveEncodable o.price ∧ PositiveEncodable o.remainingSize)
    (hseq : ((bids ++ asks).map Order.seq).Nodup) :
    (∀ r, runAuction auctionId pair bids asks = some r →
      ∀ p, matchedAt bids asks p ≤ matchedAt bids asks r.clearingPrice) ∧
    ((∀ b ∈ bids, ∀ a ∈ asks, b.trader ≠ a.trader) →
      (runAuction auctionId pair bids asks = none ↔ ∀ p, matchedAt bids asks p = 0) ∧
      ∀ r, runAuction auctionId pair bids asks = some r →
        r.matchedVolume = matchedAt bids asks r.clearingPrice) := by
  have hbpos : ∀ o ∈ bids, 0 < o.remainingSize := fun o ho => (hb o ho).2.pos
  have hapos : ∀ o ∈ asks, 0 < o.remainingSize := fun o ho => (ha o ho).2.pos
  have hbgrid : ∀ o ∈ bids, 0 < o.price ∧ OnGrid o.price := fun o ho => ⟨(hb o ho).1.pos, (hb o ho).1.onGrid⟩
  have hagrid : ∀ o ∈ asks, 0 < o.price ∧ OnGrid o.price := fun o ho => ⟨(ha o ho).1.pos, (ha o ho).1.onGrid⟩
  rw [List.map_append] at hseq
  have hnodup : asks.Nodup := List.Nodup.of_map _ hseq.of_append_right
  refine ⟨fun r hr p => ?_, fun hself => ⟨⟨fun hnone p => ?_, fun hzero => ?_⟩, fun r hr => ?_⟩⟩
  · exact runAuction_optimal (fun o ho => (hbpos o ho).le) (fun o ho => (hapos o ho).le)
      (fun o ho => (hbgrid o ho).2) (fun o ho => (hagrid o ho).2) hr p
  · rcases (matchedAt_nonneg hbpos hapos p).eq_or_lt with h | h
    · exact h.symm
    · exact absurd hnone (runAuction_isSome hnodup hbpos hapos hbgrid hagrid hself h)
  · by_contra hne
    obtain ⟨r, hr⟩ := Option.ne_none_iff_exists'.mp hne
    have hvol := runAuction_matchedVolume hnodup hbpos hapos hself hr
    rw [hzero] at hvol
    exact (runAuction_matchedVolume_pos hr).ne' hvol
  · exact runAuction_matchedVolume hnodup hbpos hapos hself hr

end Auction

/-- Prices one unit apart: the midpoint is rounded half-even and still optimal. -/
theorem runAuction_maximizes_volume_halfEven :
    let bid := makeOrder 1 1 .buy (3 / 10 ^ 8) (4 / 10 ^ 8) 1
    let ask := makeOrder 2 2 .sell (2 / 10 ^ 8) (5 / 10 ^ 8) 2
    (runAuction 0 "BTC-USD" [bid] [ask]).map AuctionResult.clearingPrice = some (2 / 10 ^ 8) ∧
      (∀ p, matchedAt [bid] [ask] p ≤ matchedAt [bid] [ask] (2 / 10 ^ 8)) ∧
      (runAuction 0 "BTC-USD" [bid] [ask]).map AuctionResult.matchedVolume =
        some (matchedAt [bid] [ask] (2 / 10 ^ 8)) := by
  intro bid ask
  have hunits : ∀ n : ℕ, 0 < n → n < 2 ^ 60 → PositiveEncodable ((n : ℚ) / 10 ^ 8) :=
    fun n h hn => ⟨n, h, hn, rfl⟩
  have hrun : ∃ r, runAuction 0 "BTC-USD" [bid] [ask] = some r ∧ r.clearingPrice = 2 / 10 ^ 8 :=
    ⟨⟨0, "BTC-USD", 2 / 10 ^ 8, 4 / 10 ^ 8,
      [⟨⟨1, 4 / 10 ^ 8⟩, ⟨2, 4 / 10 ^ 8⟩, 2 / 10 ^ 8, 4 / 10 ^ 8⟩]⟩, by decide +kernel, rfl⟩
  obtain ⟨r, hr, hprice⟩ := hrun
  obtain ⟨hopt, hexact⟩ := runAuction_maximizes_volume 0 "BTC-USD" [bid] [ask]
    (by simpa [bid, makeOrder] using ⟨hunits 3 (by norm_num) (by norm_num), hunits 4 (by norm_num) (by norm_num)⟩)
    (by simpa [ask, makeOrder] using ⟨hunits 2 (by norm_num) (by norm_num), hunits 5 (by norm_num) (by norm_num)⟩)
    (by simp [bid, ask, makeOrder])
  rw [hr, Option.map_some, Option.map_some, hprice]
  refine ⟨rfl, fun p => hprice ▸ hopt r hr p, ?_⟩
  rw [(hexact (by simp [bid, ask, makeOrder])).2 r hr, hprice]

end DarkPool
