import DarkPool.Auction
import DarkPool.Event
import DarkPool.Lib.Table

namespace DarkPool

structure PerPairBook where
  bids : Table Uuid Order
  asks : Table Uuid Order
  deriving DecidableEq

namespace PerPairBook

def empty : PerPairBook := ⟨∅, ∅⟩

def isEmpty (book : PerPairBook) : Bool := book.bids.isEmpty && book.asks.isEmpty

def side (book : PerPairBook) : Side → Table Uuid Order
  | .buy => book.bids
  | .sell => book.asks

def setSide (book : PerPairBook) (side : Side) (orders : Table Uuid Order) : PerPairBook :=
  match side with
  | .buy => { book with bids := orders }
  | .sell => { book with asks := orders }

end PerPairBook

/-- Every sub-book plus the highest event sequence number applied. -/
structure OrderBook where
  books : Table String PerPairBook
  seq : Nat
  deriving DecidableEq

/-- Where an order rests. -/
structure Resting where
  pair : String
  book : PerPairBook
  side : Side
  order : Order

namespace OrderBook

def empty : OrderBook := ⟨∅, 0⟩

def withSeq (inner : OrderBook) (seq : Nat) : OrderBook := { inner with seq := seq }

def insertOrder (inner : OrderBook) (order : Order) : OrderBook :=
  let book := (inner.books.lookup order.pair).getD PerPairBook.empty
  { inner with
    books := inner.books.insert order.pair
      (book.setSide order.side ((book.side order.side).insert order.id order)) }

/-- One sub-book of a scan over all of them: bids are looked at before asks. -/
def restingIn (id : Uuid) (pair : String) (book : PerPairBook) : Option Resting :=
  match book.bids.lookup id with
  | some order => some ⟨pair, book, .buy, order⟩
  | none => (book.asks.lookup id).map (fun order => ⟨pair, book, .sell, order⟩)

/-- The scan the book makes for an id: the first sub-book that holds it. -/
def locate (inner : OrderBook) (id : Uuid) : Option Resting :=
  inner.books.entries.findSome? (fun entry => restingIn id entry.1 entry.2)

def findOrder (inner : OrderBook) (id : Uuid) : Option Order := (inner.locate id).map Resting.order

def hasOrder (inner : OrderBook) (id : Uuid) : Bool := (inner.locate id).isSome

/-- Takes one order out of its sub-book, and an emptied sub-book out of the map. -/
def dropResting (inner : OrderBook) (r : Resting) (id : Uuid) : OrderBook :=
  let book := r.book.setSide r.side ((r.book.side r.side).erase id)
  { inner with
    books := if book.isEmpty then inner.books.erase r.pair else inner.books.insert r.pair book }

def removeOrder (inner : OrderBook) (orderId : Uuid) : OrderBook :=
  match inner.locate orderId with
  | some r => inner.dropResting r orderId
  | none => inner

/-- A fill larger than what the order has left; the book refuses it. -/
def overfills (inner : OrderBook) (fill : Fill) : Bool :=
  match inner.locate fill.orderId with
  | some r => r.order.remainingSize < fill.size
  | none => false

def applyFill (inner : OrderBook) (fill : Fill) : OrderBook :=
  match inner.locate fill.orderId with
  | none => inner
  | some r =>
    if inner.overfills fill then inner
    else
      let left := r.order.remainingSize - fill.size
      if left ≤ 0 then inner.dropResting r fill.orderId
      else
        let orders := (r.book.side r.side).insert fill.orderId (r.order.withRemaining left)
        { inner with books := inner.books.insert r.pair (r.book.setSide r.side orders) }

def applyData (inner : OrderBook) : EventData → OrderBook
  | .orderCancelled orderId _ => inner.removeOrder orderId
  | .orderExpired orderId => inner.removeOrder orderId
  | .orderMatched _ bid ask _ _ => (inner.applyFill bid).applyFill ask
  | _ => inner

/-- Applies a persisted event once: a sequence number already seen is skipped. -/
def apply (inner : OrderBook) (event : Event) : OrderBook :=
  if event.seq ≠ 0 ∧ event.seq ≤ inner.seq then inner
  else (inner.withSeq (max inner.seq event.seq)).applyData event.data

def applyAll (inner : OrderBook) (events : List Event) : OrderBook := events.foldl apply inner

def bids (inner : OrderBook) (pair : String) : List Order :=
  match inner.books.lookup pair with
  | some book => book.bids.values.insertionSort bidPriority
  | none => []

def asks (inner : OrderBook) (pair : String) : List Order :=
  match inner.books.lookup pair with
  | some book => book.asks.values.insertionSort askPriority
  | none => []

def iterAll (inner : OrderBook) : List Order :=
  inner.books.values.flatMap (fun book => book.bids.values ++ book.asks.values)

def collectExpired (inner : OrderBook) (now : DateTime) : List Event :=
  (inner.iterAll.filter (fun o => o.expiresAt ≠ 0 ∧ o.expiresAt ≤ now)).map
    (fun o => Event.unsequenced 0 (.orderExpired o.id))

def activeOrderCount (inner : OrderBook) : Nat := inner.iterAll.length

def activeOrderCountForTrader (inner : OrderBook) (trader : Address) : Nat :=
  (inner.iterAll.filter (fun o => o.trader = trader)).length

def orderIdsFor (inner : OrderBook) (pair : String) : List Uuid :=
  match inner.books.lookup pair with
  | some book => book.bids.keys ++ book.asks.keys
  | none => []

end OrderBook

end DarkPool
