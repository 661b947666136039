import DarkPool.AuctionFills

namespace DarkPool

open GreedyFill

/-- The bid `a` is served before the bid `b`. -/
def bidPrecedes (a b : Order) : Prop := b.price < a.price ∨ (a.price = b.price ∧ a.seq < b.seq)

/-- The ask `a` is served before the ask `b`. -/
def askPrecedes (a b : Order) : Prop := a.price < b.price ∨ (a.price = b.price ∧ a.seq < b.seq)

theorem bidPrecedes.not_bidPriority {a b : Order} (h : bidPrecedes a b) : ¬bidPriority b a := by
  rintro (h' | ⟨h', hs'⟩)
  · rcases h with h | ⟨h, _⟩
    · exact lt_asymm h h'
    · exact h'.ne h
  · rcases h with h | ⟨_, hs⟩
    · exact h.ne h'
    · exact absurd hs (not_lt.mpr hs')

theorem askPrecedes.not_askPriority {a b : Order} (h : askPrecedes a b) : ¬askPriority b a := by
  rintro (h' | ⟨h', hs'⟩)
  · rcases h with h | ⟨h, _⟩
    · exact lt_asymm h h'
    · exact h'.ne h.symm
  · rcases h with h | ⟨_, hs⟩
    · exact h.ne h'.symm
    · exact absurd hs (not_lt.mpr hs')

theorem bidPrecedes_irrefl (a : Order) : ¬bidPrecedes a a := by simp [bidPrecedes]

theorem askPrecedes_irrefl (a : Order) : ¬askPrecedes a a := by simp [askPrecedes]

section Matcher

variable {bids asks : List Order} {price : Decimal}

theorem matchOrders_exhausts (hb : (bids.map Order.id).Nodup) (ha : (asks.map Order.id).Nodup)
    {b a : Order} (hbm : b ∈ eligibleBids bids price) (ham : a ∈ eligibleAsks asks price)
    (hbr : 0 < b.remainingSize - bidFilled (matchOrders bids asks price) b.id)
    (har : 0 < a.remainingSize - askFilled (matchOrders bids asks price) a.id) :
    b.trader = a.trader := by
  have hnodup : (((eligibleAsks asks price).map weigh).map Prod.fst).Nodup := by
    rw [map_weigh_fst]
    exact eligibleAsks_nodup ha
  have hboth : ∀ x ∈ (fillPlan bids asks price).buyers, ∀ y ∈ (fillPlan bids asks price).sellers,
      0 < x.2 → 0 < y.2 → ¬mayTrade x.1 y.1 := fillAll_exhausts hnodup
  rw [fillPlan_buyers hb, fillPlan_sellers ha] at hboth
  exact not_not.mp (hboth _ (List.mem_map.mpr ⟨b, hbm, rfl⟩) _ (List.mem_map.mpr ⟨a, ham, rfl⟩) hbr har)

theorem matchOrders_bid_priority (hsorted : bids.Pairwise bidPriority)
    (hb : (bids.map Order.id).Nodup) (ha : (asks.map Order.id).Nodup) {b₁ b₂ : Order}
    (h₁ : b₁ ∈ eligibleBids bids price) (h₂ : b₂ ∈ eligibleBids bids price) (hprec : bidPrecedes b₁ b₂)
    (hleft : 0 < b₁.remainingSize - bidFilled (matchOrders bids asks price) b₁.id)
    {m : Match} (hm : m ∈ matchOrders bids asks price) (hmb : m.bid.orderId = b₂.id)
    {a : Order} (haa : a ∈ asks) (hma : m.ask.orderId = a.id) : a.trader = b₁.trader := by
  have hserved : (fillPlan bids asks price).buyers.Pairwise (fun x y => 0 < x.2 →
      ∀ t ∈ (fillPlan bids asks price).trades, t.buyer = y.1 → ¬mayTrade x.1 t.seller) := by
    apply fillAll_buyer_priority
    · rw [map_weigh_fst]
      exact eligibleBids_nodup hb
    · rw [map_weigh_fst]
      exact eligibleAsks_nodup ha
  rw [fillPlan_buyers hb] at hserved
  have hpair := forall_of_sorted_pairwise (hsorted.filter _) (List.pairwise_map.mp hserved)
    (fun x y => bidPrecedes.not_bidPriority) bidPrecedes_irrefl b₁ h₁ b₂ h₂ hprec hleft
  rw [matchOrders_eq_fillPlan] at hm
  obtain ⟨t, ht, rfl⟩ := List.mem_map.mp hm
  obtain ⟨hbuyer, hseller, _, _⟩ := fillPlan_trade ht
  have hbuy : t.buyer = b₂ := eq_of_id_eq hb (mem_eligibleBids.mp hbuyer).1 (mem_eligibleBids.mp h₂).1 hmb
  have hsell : t.seller = a := eq_of_id_eq ha (mem_eligibleAsks.mp hseller).1 haa hma
  exact (not_not.mp (hsell ▸ hpair t ht hbuy)).symm

theorem matchOrders_ask_priority (hsorted : asks.Pairwise askPriority)
    (hb : (bids.map Order.id).Nodup) (ha : (asks.map Order.id).Nodup) {a₁ a₂ : Order}
    (h₁ : a₁ ∈ eligibleAsks asks price) (h₂ : a₂ ∈ eligibleAsks asks price) (hprec : askPrecedes a₁ a₂)
    (hleft : 0 < a₁.remainingSize - askFilled (matchOrders bids asks price) a₁.id)
    {m : Match} (hm : m ∈ matchOrders bids asks price) (hma : m.ask.orderId = a₂.id)
    {b : Order} (hbb : b ∈ bids) (hmb : m.bid.orderId = b.id) : b.trader = a₁.trader := by
  have hserved : (fillPlan bids asks price).sellers.Pairwise (fun x y => 0 < x.2 →
      ∀ t ∈ (fillPlan bids asks price).trades, t.seller = y.1 → ¬mayTrade t.buyer x.1) := by
    apply fillAll_seller_priority
    rw [map_weigh_fst]
    exact eligibleAsks_nodup ha
  rw [fillPlan_sellers ha] at hserved
  have hpair := forall_of_sorted_pairwise (hsorted.filter _) (List.pairwise_map.mp hserved)
    (fun x y => askPrecedes.not_askPriority) askPrecedes_irrefl a₁ h₁ a₂ h₂ hprec hleft
  rw [matchOrders_eq_fillPlan] at hm
  obtain ⟨t, ht, rfl⟩ := List.mem_map.mp hm
  obtain ⟨hbuyer, hseller, _, _⟩ := fillPlan_trade ht
  have hbuy : t.buyer = b := eq_of_id_eq hb (mem_eligibleBids.mp hbuyer).1 hbb hmb
  have hsell : t.seller = a₂ := eq_of_id_eq ha (mem_eligibleAsks.mp hseller).1 (mem_eligibleAsks.mp h₂).1 hma
  exact not_not.mp (hbuy ▸ hpair t ht hsell)

end Matcher

section Auction

variable {auctionId : Uuid} {pair : String} {bids asks : List Order} {r : AuctionResult}

/-- A match of the auction names one bid and one ask it can fill. -/
theorem runAuction_match (h : runAuction auctionId pair bids asks = some r) {m : Match}
    (hm : m ∈ r.matchList) :
    ∃ b ∈ bids, ∃ a ∈ asks, r.clearingPrice ≤ b.price ∧ a.price ≤ r.clearingPrice ∧
      0 < b.remainingSize ∧ 0 < a.remainingSize ∧ b.trader ≠ a.trader ∧ 0 < m.size ∧
      m = ⟨⟨b.id, m.size⟩, ⟨a.id, m.size⟩, r.clearingPrice, m.size⟩ := by
  obtain ⟨-, -, -, hlist, -⟩ := runSorted_eq_some h
  rw [hlist] at hm
  obtain ⟨b, hb, a, ha, hne, hpos, he⟩ := mem_matchOrders hm
  obtain ⟨hbm, hbp, hbr⟩ := mem_eligibleBids.mp hb
  obtain ⟨ham, hap, har⟩ := mem_eligibleAsks.mp ha
  exact ⟨b, (List.mem_insertionSort _).mp hbm, a, (List.mem_insertionSort _).mp ham, hbp, hap, hbr, har,
    hne, hpos, he⟩

theorem bidFilled_nonneg (h : runAuction auctionId pair bids asks = some r) (id : Uuid) :
    0 ≤ bidFilled r.matchList id := by
  apply List.sum_nonneg
  intro x hx
  obtain ⟨m, hm, rfl⟩ := List.mem_map.mp hx
  obtain ⟨b, _, a, _, _, _, _, _, _, hpos, he⟩ := runAuction_match h (List.mem_filter.mp hm).1
  rw [he]
  exact hpos.le

theorem askFilled_nonneg (h : runAuction auctionId pair bids asks = some r) (id : Uuid) :
    0 ≤ askFilled r.matchList id := by
  apply List.sum_nonneg
  intro x hx
  obtain ⟨m, hm, rfl⟩ := List.mem_map.mp hx
  obtain ⟨b, _, a, _, _, _, _, _, _, hpos, he⟩ := runAuction_match h (List.mem_filter.mp hm).1
  rw [he]
  exact hpos.le

theorem mem_eligibleBids_of_left (h : runAuction auctionId pair bids asks = some r) {b : Order}
    (hb : b ∈ bids) (hp : r.clearingPrice ≤ b.price)
    (hr : 0 < b.remainingSize - bidFilled r.matchList b.id) :
    b ∈ eligibleBids (bids.insertionSort bidPriority) r.clearingPrice :=
  mem_eligibleBids.mpr ⟨(List.mem_insertionSort _).mpr hb, hp,
    hr.trans_le (sub_le_self _ (bidFilled_nonneg h _))⟩

theorem mem_eligibleAsks_of_left (h : runAuction auctionId pair bids asks = some r) {a : Order}
    (ha : a ∈ asks) (hp : a.price ≤ r.clearingPrice)
    (hr : 0 < a.remainingSize - askFilled r.matchList a.id) :
    a ∈ eligibleAsks (asks.insertionSort askPriority) r.clearingPrice :=
  mem_eligibleAsks.mpr ⟨(List.mem_insertionSort _).mpr ha, hp,
    hr.trans_le (sub_le_self _ (askFilled_nonneg h _))⟩

section Priority

variable (hb : (bids.map Order.id).Nodup) (ha : (asks.map Order.id).Nodup)
variable (h : runAuction auctionId pair bids asks = some r)

include hb ha h

theorem runAuction_exhausts {b a : Order} (hbm : b ∈ bids) (hbp : r.clearingPrice ≤ b.price)
    (hbr : 0 < b.remainingSize - bidFilled r.matchList b.id) (ham : a ∈ asks) (hap : a.price ≤ r.clearingPrice)
    (har : 0 < a.remainingSize - askFilled r.matchList a.id) : b.trader = a.trader := by
  have hlist := (runSorted_eq_some h).2.2.2.1
  exact matchOrders_exhausts (ids_nodup_sorted hb bidPriority) (ids_nodup_sorted ha askPriority)
    (mem_eligibleBids_of_left h hbm hbp hbr) (mem_eligibleAsks_of_left h ham hap har)
    (hlist ▸ hbr) (hlist ▸ har)

theorem runAuction_bid_priority {b₁ b₂ : Order} (h₁ : b₁ ∈ bids) (hp₁ : r.clearingPrice ≤ b₁.price)
    (hr₁ : 0 < b₁.remainingSize - bidFilled r.matchList b₁.id) (h₂ : b₂ ∈ bids) (hprec : bidPrecedes b₁ b₂)
    {m : Match} (hm : m ∈ r.matchList) (hmb : m.bid.orderId = b₂.id) {a : Order} (ham : a ∈ asks)
    (hma : m.ask.orderId = a.id) : a.trader = b₁.trader := by
  have hlist := (runSorted_eq_some h).2.2.2.1
  obtain ⟨b, hbm, _, _, hbp, _, hbr, _, _, _, he⟩ := runAuction_match h hm
  have hb₂ : b = b₂ := eq_of_id_eq hb hbm h₂ (by rw [← hmb, he])
  have h₂' : b₂ ∈ eligibleBids (bids.insertionSort bidPriority) r.clearingPrice :=
    mem_eligibleBids.mpr ⟨(List.mem_insertionSort _).mpr h₂, hb₂ ▸ hbp, hb₂ ▸ hbr⟩
  exact matchOrders_bid_priority (List.pairwise_insertionSort bidPriority bids)
    (ids_nodup_sorted hb bidPriority) (ids_nodup_sorted ha askPriority)
    (mem_eligibleBids_of_left h h₁ hp₁ hr₁) h₂' hprec (hlist ▸ hr₁) (hlist ▸ hm) hmb
    ((List.mem_insertionSort _).mpr ham) hma

theorem runAuction_ask_priority {a₁ a₂ : Order} (h₁ : a₁ ∈ asks) (hp₁ : a₁.price ≤ r.clearingPrice)
    (hr₁ : 0 < a₁.remainingSize - askFilled r.matchList a₁.id) (h₂ : a₂ ∈ asks) (hprec : askPrecedes a₁ a₂)
    {m : Match} (hm : m ∈ r.matchList) (hma : m.ask.orderId = a₂.id) {b : Order} (hbm : b ∈ bids)
    (hmb : m.bid.orderId = b.id) : b.trader = a₁.trader := by
  have hlist := (runSorted_eq_some h).2.2.2.1
  obtain ⟨_, _, a, ham, _, hap, _, har, _, _, he⟩ := runAuction_match h hm
  have ha₂ : a = a₂ := eq_of_id_eq ha ham h₂ (by rw [← hma, he])
  have h₂' : a₂ ∈ eligibleAsks (asks.insertionSort askPriority) r.clearingPrice :=
    mem_eligibleAsks.mpr ⟨(List.mem_insertionSort _).mpr h₂, ha₂ ▸ hap, ha₂ ▸ har⟩
  exact matchOrders_ask_priority (List.pairwise_insertionSort askPriority asks)
    (ids_nodup_sorted hb bidPriority) (ids_nodup_sorted ha askPriority)
    (mem_eligibleAsks_of_left h h₁ hp₁ hr₁) h₂' hprec (hlist ▸ hr₁) (hlist ▸ hm) hma
    ((List.mem_insertionSort _).mpr hbm) hmb

end Priority

end Auction

/-- Strict price-time priority of a result: nothing tradeable is left on both sides, and an order
left unsatisfied is only overtaken by trades with its own trader. -/
theorem runAuction_price_time_priority (auctionId : Uuid) (pair : String) (bids asks : List Order)
    (hb : (bids.map Order.id).Nodup) (ha : (asks.map Order.id).Nodup) (r : AuctionResult)
    (h : runAuction auctionId pair bids asks = some r) :
    (∀ b ∈ bids, r.clearingPrice ≤ b.price → 0 < b.remainingSize - bidFilled r.matchList b.id →
      ∀ a ∈ asks, a.price ≤ r.clearingPrice → 0 < a.remainingSize - askFilled r.matchList a.id →
        b.trader = a.trader) ∧
    (∀ b₁ ∈ bids, r.clearingPrice ≤ b₁.price → 0 < b₁.remainingSize - bidFilled r.matchList b₁.id →
      ∀ b₂ ∈ bids, bidPrecedes b₁ b₂ → ∀ m ∈ r.matchList, m.bid.orderId = b₂.id →
        ∀ a ∈ asks, m.ask.orderId = a.id → a.trader = b₁.trader) ∧
    (∀ a₁ ∈ asks, a₁.price ≤ r.clearingPrice → 0 < a₁.remainingSize - askFilled r.matchList a₁.id →
      ∀ a₂ ∈ asks, askPrecedes a₁ a₂ → ∀ m ∈ r.matchList, m.ask.orderId = a₂.id →
        ∀ b ∈ bids, m.bid.orderId = b.id → b.trader = a₁.trader) :=
  ⟨fun _ hbm hbp hbr _ ham hap har => runAuction_exhausts hb ha h hbm hbp hbr ham hap har,
    fun _ h₁ hp₁ hr₁ _ h₂ hprec _ hm hmb _ ham hma =>
      runAuction_bid_priority hb ha h h₁ hp₁ hr₁ h₂ hprec hm hmb ham hma,
    fun _ h₁ hp₁ hr₁ _ h₂ hprec _ hm hma _ hbm hmb =>
      runAuction_ask_priority hb ha h h₁ hp₁ hr₁ h₂ hprec hm hma hbm hmb⟩

/-- The better bid is skipped because the only ask is its own trader's, who then fills the worse bid. -/
theorem runAuction_price_time_priority_selfTrade :
    let b₁ := makeOrder 1 1 .buy 3 5 1
    let b₂ := makeOrder 2 2 .buy 2 5 2
    let a := makeOrder 3 1 .sell 1 5 3
    ∃ r, runAuction 0 "BTC-USD" [b₁, b₂] [a] = some r ∧
      (∃ m ∈ r.matchList, m.bid.orderId = b₂.id ∧ m.ask.orderId = a.id) ∧ a.trader = b₁.trader := by
  intro b₁ b₂ a
  have hrun : runAuction 0 "BTC-USD" [b₁, b₂] [a] =
      some ⟨0, "BTC-USD", 2, 5, [⟨⟨2, 5⟩, ⟨3, 5⟩, 2, 5⟩]⟩ := by decide +kernel
  obtain ⟨_, hbid, _⟩ := runAuction_price_time_priority 0 "BTC-USD" [b₁, b₂] [a] (by decide) (by decide) _ hrun
  refine ⟨_, hrun, ⟨⟨⟨2, 5⟩, ⟨3, 5⟩, 2, 5⟩, by simp, rfl, rfl⟩, ?_⟩
  exact hbid b₁ (by simp) (by decide) (by decide +kernel) b₂ (by simp) (by unfold bidPrecedes; decide)
    ⟨⟨2, 5⟩, ⟨3, 5⟩, 2, 5⟩ (by simp) rfl a (by simp) rfl

end DarkPool
