import DarkPool.Lib.HalfEven
import DarkPool.Types
import Mathlib.Data.List.Sort
import Mathlib.Data.List.Dedup

namespace DarkPool

/-- Decimal places of the clearing price, the scale of the scalar encoder. -/
def clearingPriceDp : Nat := 8

structure AuctionResult where
  auctionId : Uuid
  pair : String
  clearingPrice : Decimal
  matchedVolume : Decimal
  matchList : List Match
  deriving DecidableEq

/-- Price descending, then placement sequence ascending. -/
def bidPriority (a b : Order) : Prop := b.price < a.price ∨ (a.price = b.price ∧ a.seq ≤ b.seq)

/-- Price ascending, then placement sequence ascending. -/
def askPriority (a b : Order) : Prop := a.price < b.price ∨ (a.price = b.price ∧ a.seq ≤ b.seq)

instance : DecidableRel bidPriority := fun a b =>
  inferInstanceAs (Decidable (b.price < a.price ∨ (a.price = b.price ∧ a.seq ≤ b.seq)))

instance : DecidableRel askPriority := fun a b =>
  inferInstanceAs (Decidable (a.price < b.price ∨ (a.price = b.price ∧ a.seq ≤ b.seq)))

def cumulativeVolume (orders : List Order) (pred : Order → Bool) : Decimal :=
  ((orders.filter pred).map Order.remainingSize).sum

/-- The distinct order prices in ascending order. -/
def candidatePrices (bids asks : List Order) : List Decimal :=
  (bids.map Order.price ++ asks.map Order.price).dedup.insertionSort (· ≤ ·)

def matchedAt (bids asks : List Order) (p : Decimal) : Decimal :=
  min (cumulativeVolume bids (fun o => p ≤ o.price)) (cumulativeVolume asks (fun o => o.price ≤ p))

/-- The greatest matched volume over the candidates and the prices tied for it. -/
def bestPrices (bids asks : List Order) : Decimal × List Decimal :=
  (candidatePrices bids asks).foldl (fun acc p =>
    if acc.1 < matchedAt bids asks p then (matchedAt bids asks p, [p])
    else if matchedAt bids asks p = acc.1 ∧ 0 < matchedAt bids asks p then (acc.1, acc.2 ++ [p])
    else acc) (0, [])

def computeClearingPrice (bids asks : List Order) : Decimal :=
  match (bestPrices bids asks).2 with
  | [] => 0
  | lo :: rest => HalfEven.roundDp ((lo + (lo :: rest).getLast (by simp)) / 2) clearingPriceDp

structure BidFill where
  bid : Order
  asks : List Order
  matchList : List Match

/-- The inner loop: one bid against the asks in priority order, stopping once
the bid is used up and skipping empty asks and asks of the bid's own trader. -/
def fillBid (price : Decimal) : Order → List Order → BidFill
  | bid, [] => ⟨bid, [], []⟩
  | bid, ask :: asks =>
    if bid.remainingSize ≤ 0 then ⟨bid, ask :: asks, []⟩
    else if ask.remainingSize ≤ 0 ∨ bid.trader = ask.trader then
      let out := fillBid price bid asks
      ⟨out.bid, ask :: out.asks, out.matchList⟩
    else
      let fillSize := min bid.remainingSize ask.remainingSize
      let out := fillBid price (bid.withRemaining (bid.remainingSize - fillSize)) asks
      ⟨out.bid, ask.withRemaining (ask.remainingSize - fillSize) :: out.asks,
        ⟨⟨bid.id, fillSize⟩, ⟨ask.id, fillSize⟩, price, fillSize⟩ :: out.matchList⟩

def fillBids (price : Decimal) : List Order → List Order → List Match
  | [], _ => []
  | bid :: bids, asks =>
    (fillBid price bid asks).matchList ++ fillBids price bids (fillBid price bid asks).asks

def eligibleBids (bids : List Order) (price : Decimal) : List Order :=
  bids.filter (fun b => price ≤ b.price ∧ 0 < b.remainingSize)

def eligibleAsks (asks : List Order) (price : Decimal) : List Order :=
  asks.filter (fun a => a.price ≤ price ∧ 0 < a.remainingSize)

def matchOrders (bids asks : List Order) (price : Decimal) : List Match :=
  fillBids price (eligibleBids bids price) (eligibleAsks asks price)

/-- The auction proper, over sides already in priority order. -/
def runSorted (auctionId : Uuid) (pair : String) (bids asks : List Order) : Option AuctionResult :=
  match bids.head?, asks.head? with
  | some bid, some ask =>
    if bid.price < ask.price then none
    else
      let clearingPrice := computeClearingPrice bids asks
      if clearingPrice ≤ 0 then none
      else
        let matchList := matchOrders bids asks clearingPrice
        if matchList.isEmpty then none
        else some ⟨auctionId, pair, clearingPrice, (matchList.map Match.size).sum, matchList⟩
  | _, _ => none

/-- One batch auction over the orders of `pair`; `none` when nothing trades. -/
def runAuction (auctionId : Uuid) (pair : String) (bids asks : List Order) : Option AuctionResult :=
  runSorted auctionId pair (bids.insertionSort bidPriority) (asks.insertionSort askPriority)

end DarkPool
