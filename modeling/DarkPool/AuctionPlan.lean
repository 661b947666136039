import DarkPool.Auction
import DarkPool.Lib.GreedyClear

namespace DarkPool

open GreedyFill

/-- Self-trade prevention: only orders of different traders may meet. -/
def mayTrade (bid ask : Order) : Prop := bid.trader ≠ ask.trader

instance (bid ask : Order) : Decidable (mayTrade bid ask) :=
  inferInstanceAs (Decidable (bid.trader ≠ ask.trader))

def weigh (o : Order) : Order × Decimal := (o, o.remainingSize)

def unweigh (x : Order × Decimal) : Order := x.1.withRemaining x.2

def tradeMatch (price : Decimal) (t : Trade Order Order Decimal) : Match :=
  ⟨⟨t.buyer.id, t.amount⟩, ⟨t.seller.id, t.amount⟩, price, t.amount⟩

/-- The matcher mutates copies of the orders; the fill plan keeps the orders
themselves and tracks their remainders beside them. -/
theorem fillBid_eq_fillOne (price : Decimal) (bid : Order) (r : Decimal) (asks : List (Order × Decimal)) :
    fillBid price (bid.withRemaining r) (asks.map unweigh) =
      ⟨bid.withRemaining (fillOne mayTrade bid r asks).residual,
        (fillOne mayTrade bid r asks).sellers.map unweigh,
        (fillOne mayTrade bid r asks).trades.map (tradeMatch price)⟩ := by
  fun_induction fillOne mayTrade bid r asks with
  | case1 => rfl
  | case2 r b s rest hr => simp [fillBid, hr]
  | case3 r b s rest hr hs out ih =>
    have hskip : s ≤ 0 ∨ bid.trader = b.trader := hs.imp_right not_not.mp
    simp only [List.map_cons, fillBid, Order.withRemaining_remainingSize, hr, if_false, unweigh,
      Order.withRemaining_trader, hskip, if_true]
    rw [ih]
  | case4 r b s rest hr hs out ih =>
    have htake : ¬(s ≤ 0 ∨ bid.trader = b.trader) := fun h => hs (h.imp_right not_not.mpr)
    simp only [List.map_cons, fillBid, Order.withRemaining_remainingSize, hr, if_false, unweigh,
      Order.withRemaining_trader, htake, Order.withRemaining_withRemaining]
    rw [ih]
    rfl

theorem fillBids_eq_fillAll (price : Decimal) (bids asks : List (Order × Decimal)) :
    fillBids price (bids.map unweigh) (asks.map unweigh) =
      (fillAll mayTrade bids asks).trades.map (tradeMatch price) := by
  fun_induction fillAll mayTrade bids asks with
  | case1 => rfl
  | case2 a r rest sellers one out ih =>
    simp only [List.map_cons, fillBids, List.map_append]
    rw [show unweigh (a, r) = a.withRemaining r from rfl, fillBid_eq_fillOne, ih]

/-- The matcher's plan for the eligible orders at one price. -/
def fillPlan (bids asks : List Order) (price : Decimal) : Cleared Order Order Decimal :=
  fillAll mayTrade ((eligibleBids bids price).map weigh) ((eligibleAsks asks price).map weigh)

theorem map_unweigh_weigh (os : List Order) : (os.map weigh).map unweigh = os := by
  rw [List.map_map]
  exact List.map_id _

theorem matchOrders_eq_fillPlan (bids asks : List Order) (price : Decimal) :
    matchOrders bids asks price = (fillPlan bids asks price).trades.map (tradeMatch price) := by
  rw [fillPlan, ← fillBids_eq_fillAll, map_unweigh_weigh, map_unweigh_weigh]
  rfl

theorem mem_eligibleBids {bids : List Order} {price : Decimal} {b : Order} :
    b ∈ eligibleBids bids price ↔ b ∈ bids ∧ price ≤ b.price ∧ 0 < b.remainingSize := by
  simp [eligibleBids]

theorem mem_eligibleAsks {asks : List Order} {price : Decimal} {a : Order} :
    a ∈ eligibleAsks asks price ↔ a ∈ asks ∧ a.price ≤ price ∧ 0 < a.remainingSize := by
  simp [eligibleAsks]

theorem map_weigh_fst (os : List Order) : (os.map weigh).map Prod.fst = os := by
  rw [List.map_map]
  exact List.map_id _

theorem map_weigh_snd (os : List Order) : (os.map weigh).map Prod.snd = os.map Order.remainingSize := by
  rw [List.map_map]
  rfl

/-- A planned trade joins two eligible orders of different traders. -/
theorem fillPlan_trade {bids asks : List Order} {price : Decimal} {t : Trade Order Order Decimal}
    (h : t ∈ (fillPlan bids asks price).trades) :
    t.buyer ∈ eligibleBids bids price ∧ t.seller ∈ eligibleAsks asks price ∧
      t.buyer.trader ≠ t.seller.trader ∧ 0 < t.amount := by
  obtain ⟨hbuyer, hok, hpos⟩ := fillAll_trade_buyer h
  have hseller := fillAll_seller_mem h
  rw [map_weigh_fst] at hbuyer hseller
  exact ⟨hbuyer, hseller, hok, hpos⟩

/-- A match joins two eligible orders of different traders at the clearing price. -/
theorem mem_matchOrders {bids asks : List Order} {price : Decimal} {m : Match}
    (h : m ∈ matchOrders bids asks price) :
    ∃ b ∈ eligibleBids bids price, ∃ a ∈ eligibleAsks asks price, b.trader ≠ a.trader ∧ 0 < m.size ∧
      m = ⟨⟨b.id, m.size⟩, ⟨a.id, m.size⟩, price, m.size⟩ := by
  rw [matchOrders_eq_fillPlan] at h
  obtain ⟨t, ht, rfl⟩ := List.mem_map.mp h
  obtain ⟨hb, ha, hne, hpos⟩ := fillPlan_trade ht
  exact ⟨t.buyer, hb, t.seller, ha, hne, hpos, rfl⟩

theorem sum_size_matchOrders (bids asks : List Order) (price : Decimal) :
    ((matchOrders bids asks price).map Match.size).sum = total (fillPlan bids asks price).trades := by
  rw [matchOrders_eq_fillPlan, List.map_map]
  rfl

/-- Everything a completed auction has been through. -/
theorem runSorted_eq_some {auctionId : Uuid} {pair : String} {bids asks : List Order}
    {r : AuctionResult} (h : runSorted auctionId pair bids asks = some r) :
    r.clearingPrice = computeClearingPrice bids asks ∧ 0 < r.clearingPrice ∧ r.matchList ≠ [] ∧
      r.matchList = matchOrders bids asks r.clearingPrice ∧
      r.matchedVolume = (r.matchList.map Match.size).sum := by
  simp only [runSorted] at h
  split at h
  next bid ask _ _ =>
    split at h
    next => simp at h
    next =>
      split at h
      next => simp at h
      next hpos =>
        split at h
        next => simp at h
        next hne =>
          cases Option.some.inj h
          exact ⟨rfl, not_le.mp hpos, by simpa using hne, rfl, rfl⟩
  next => simp at h

theorem runSorted_ids {auctionId : Uuid} {pair : String} {bids asks : List Order} {r : AuctionResult}
    (h : runSorted auctionId pair bids asks = some r) : r.auctionId = auctionId ∧ r.pair = pair := by
  simp only [runSorted] at h
  split at h
  next bid ask _ _ =>
    simp only [Option.ite_none_left_eq_some, Option.some.injEq] at h
    obtain ⟨-, -, -, rfl⟩ := h
    exact ⟨rfl, rfl⟩
  next => simp at h

/-- Everything a refused auction may have stopped at. -/
theorem runSorted_eq_none_iff {auctionId : Uuid} {pair : String} {bids asks : List Order} :
    runSorted auctionId pair bids asks = none ↔
      ∀ bid ask, bids.head? = some bid → asks.head? = some ask → ask.price ≤ bid.price →
        0 < computeClearingPrice bids asks →
        matchOrders bids asks (computeClearingPrice bids asks) = [] := by
  simp only [runSorted]
  split
  next bid ask hb ha =>
    have hall : (∀ b a, bids.head? = some b → asks.head? = some a → a.price ≤ b.price →
        0 < computeClearingPrice bids asks →
        matchOrders bids asks (computeClearingPrice bids asks) = []) ↔
        (ask.price ≤ bid.price → 0 < computeClearingPrice bids asks →
          matchOrders bids asks (computeClearingPrice bids asks) = []) := by
      simp [hb, ha]
    rw [hall]
    split
    next hlt => simp [not_le.mpr hlt]
    next hle =>
      have hcross := not_lt.mp hle
      split
      next hprice => simp [not_lt.mpr hprice]
      next hprice =>
        split
        next hempty => simpa using fun _ _ => List.isEmpty_iff.mp hempty
        next hempty =>
          have hne : matchOrders bids asks (computeClearingPrice bids asks) ≠ [] := by
            simpa using hempty
          simp [hcross, not_le.mp hprice, hne]
  next hnone =>
    refine ⟨fun _ bid ask hb ha => (hnone bid ask hb ha).elim, fun _ => rfl⟩

end DarkPool
