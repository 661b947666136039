import DarkPool.Engine
import DarkPool.Lib.Chunks

namespace DarkPool

/-- One chunk of a round's matches on its way to the prover. -/
structure PendingAggregation where
  batchId : Uuid
  auctionId : Uuid
  pair : String
  matchList : List Match
  orders : Table Uuid Order
  admittedOrderIds : List Uuid
  auctionAt : DateTime

def engineBatchSize : Nat := 8

def clearingPriceEncodable (result : AuctionResult) : Bool :=
  match decimalToScalar result.clearingPrice with
  | .ok _ => true
  | .error _ => false

/-- The expiry sweep that opens a tick; `expired` is what the book collected. A failed append is
logged and the orders stay. -/
def expireOrders (state : EngineState) (store : Store) (now clock : DateTime) (ok : Bool) (expired : List Event) :
    EngineState × Store :=
  if expired.isEmpty then (state, store)
  else
    match appendEvents store clock ok (expired.map (fun e => { e with timestamp := now })) with
    | .error _ => (state, store)
    | .ok (store, events) => (state.withBook (state.book.applyAll events), store)

def activePairs (state : EngineState) : List String :=
  ((state.pairTokens.entries.filter (fun e => e.2.status.isActive)).map Sigma.fst).insertionSort (· ≤ ·)

def executedEvent (now : DateTime) (result : AuctionResult) : Event :=
  Event.unsequenced now (.auctionExecuted result.auctionId result.pair result.clearingPrice result.matchedVolume
    (UInt32.ofNat result.matchList.length) now)

def matchedEvent (now : DateTime) (auctionId : Uuid) (m : Match) : Event :=
  Event.unsequenced now (.orderMatched auctionId m.bid m.ask m.price m.size)

def auctionEvents (now : DateTime) (result : AuctionResult) : List Event :=
  executedEvent now result :: result.matchList.map (matchedEvent now result.auctionId)

def executedRecord (now : DateTime) (result : AuctionResult) : AuctionExecutedRecord where
  auctionId := result.auctionId
  pair := result.pair
  clearingPrice := result.clearingPrice
  matchedVolume := result.matchedVolume
  matchCount := UInt32.ofNat result.matchList.length
  timestamp := now

def snapshotOrder (book : OrderBook) (orders : Table Uuid Order) (id : Uuid) : Table Uuid Order :=
  match book.findOrder id with
  | some o => orders.insert o.id o
  | none => orders

/-- The full rows of the matched orders, taken before the fills are applied. -/
def orderSnapshot (book : OrderBook) (matchList : List Match) : Table Uuid Order :=
  matchList.foldl (fun orders m => snapshotOrder book (snapshotOrder book orders m.bid.orderId) m.ask.orderId) ∅

/-- One aggregation per chunk of the round, under a fresh batch id each. -/
def aggregations (now : DateTime) (result : AuctionResult) (orders : Table Uuid Order) (admitted : List Uuid)
    (batchIds : List Uuid) : List PendingAggregation :=
  (batchIds.zip (result.matchList.pieces engineBatchSize)).map (fun c =>
    { batchId := c.1, auctionId := result.auctionId, pair := result.pair, matchList := c.2, orders := orders,
      admittedOrderIds := admitted, auctionAt := now })

/-- The round of one pair, or `none` when it is skipped: nothing crosses, or the clearing price does
not encode. -/
def tickRound (state : EngineState) (pair : String) (auctionId : Uuid) : Option AuctionResult :=
  match runAuction auctionId pair (state.book.bids pair) (state.book.asks pair) with
  | none => none
  | some result => if clearingPriceEncodable result then some result else none

/-- Every order live in the sub-book of the pair. -/
def admittedOrderIds (state : EngineState) (pair : String) : List Uuid :=
  (state.book.bids pair ++ state.book.asks pair).map Order.id

/-- Persists a round and applies it; `none` when the append failed, and the round is skipped. -/
def recordRound (state : EngineState) (store : Store) (now clock : DateTime) (ok : Bool) (result : AuctionResult)
    (batchIds : List Uuid) : Option (EngineState × Store × List PendingAggregation) :=
  let orders := orderSnapshot state.book result.matchList
  let admitted := admittedOrderIds state result.pair
  match appendEvents store clock ok (auctionEvents now result) with
  | .error _ => none
  | .ok (store, events) =>
    let state := { state with auctionLog := state.auctionLog ++ [executedRecord now result] }
    some (state.withBook (state.book.applyAll events), store, aggregations now result orders admitted batchIds)

end DarkPool
