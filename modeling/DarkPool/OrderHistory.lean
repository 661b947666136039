import DarkPool.Types
import DarkPool.Lib.Table
import DarkPool.Lib.Transition

namespace DarkPool

inductive OrderStatus
  | opened
  | filled
  | cancelled
  | expired
  deriving DecidableEq

/-- A locally tracked order. Sizes have at most nineteen digits on the wire, so the sums and differences
of the number library are exact; an expiry of zero is none. -/
structure OrderRecord where
  id : String
  trader : String
  side : Side
  price : Decimal
  size : Decimal
  remainingSize : Decimal
  status : OrderStatus
  expiresAtUnix : Decimal
  deriving DecidableEq

/-- The key of a fill: what the exchange named it, or the text that a backfill makes of the order and the
size it found accounted for. -/
inductive FillId
  | live (id : String)
  | backfill (orderId : String) (accountedFilled : Decimal)
  deriving DecidableEq

structure FillRecord where
  fillId : FillId
  orderId : String
  auctionId : String
  trader : String
  side : Side
  price : Decimal
  size : Decimal
  timestampUnix : Decimal
  size_pos : 0 < size
  deriving DecidableEq

structure HistoryDb where
  orders : Table String OrderRecord
  fills : Table FillId FillRecord

def isTerminal (status : OrderStatus) : Bool := status ≠ .opened

namespace HistoryDb

variable (db : HistoryDb)

/-- Terminal records and unknown ids are left alone. -/
def markOrderCancelled (orderId : String) : HistoryDb :=
  match db.orders.lookup orderId with
  | none => db
  | some record =>
    if isTerminal record.status then db
    else { db with orders := db.orders.insert orderId { record with status := .cancelled } }

/-- A fill is stored once, and the size of an open order is taken down by it. -/
def applyFill (fill : FillRecord) : HistoryDb :=
  if (db.fills.lookup fill.fillId).isSome then db
  else
    let fills := db.fills.insert fill.fillId fill
    match db.orders.lookup fill.orderId with
    | none => { db with fills := fills }
    | some order =>
      if isTerminal order.status then { db with fills := fills }
      else
        let remaining := max 0 (order.remainingSize - fill.size)
        { orders := db.orders.insert fill.orderId
            { order with remainingSize := remaining, status := if remaining = 0 then .filled else .opened }
          fills := fills }

def listNonTerminalOrders (trader : String) : List OrderRecord :=
  db.orders.values.filter (fun r => r.trader = trader ∧ r.status = .opened)

def fillsForOrder (orderId : String) : List FillRecord := db.fills.values.filter (fun f => f.orderId = orderId)

end HistoryDb

def accountedFilledSize (fills : List FillRecord) : Decimal := (fills.map FillRecord.size).sum

structure ReconcileResult where
  record : OrderRecord
  fill : Option FillRecord
  deriving DecidableEq

/-- The part of the filled size that no stored fill accounts for, at the limit price. -/
def synthesizeFill (record : OrderRecord) (filledTotal accountedFilled nowUnixSec : Decimal) : Option FillRecord :=
  if h : 0 < filledTotal - accountedFilled then
    some ⟨.backfill record.id accountedFilled, record.id, "", record.trader, record.side, record.price,
      filledTotal - accountedFilled, nowUnixSec, h⟩
  else none

/-- `remote` is the remaining size of the order, or that it was not found. -/
def reconcileOrder (record : OrderRecord) (remote : Option Decimal) (accountedFilled nowUnixSec : Decimal) :
    ReconcileResult :=
  if isTerminal record.status then ⟨record, none⟩
  else
    match remote with
    | some remainingSize =>
      ⟨{ record with remainingSize := remainingSize },
        synthesizeFill record (record.size - remainingSize) accountedFilled nowUnixSec⟩
    | none =>
      if record.expiresAtUnix ≠ 0 ∧ record.expiresAtUnix ≤ nowUnixSec then ⟨{ record with status := .expired }, none⟩
      else
        ⟨{ record with status := .filled, remainingSize := 0 },
          synthesizeFill record record.size accountedFilled nowUnixSec⟩

/-- Puts the record, whatever is stored by now. -/
def HistoryDb.applyReconciliation (db : HistoryDb) (result : ReconcileResult) : HistoryDb where
  orders := db.orders.insert result.record.id result.record
  fills := match result.fill with
    | some fill => db.fills.insert fill.fillId fill
    | none => db.fills

/-- What a lookup of an order comes to: the remaining size, `not_found`, or an error. -/
inductive Lookup
  | found (remainingSize : Decimal)
  | notFound
  | failed
  deriving DecidableEq

def Lookup.remote : Lookup → Option (Option Decimal)
  | .found remainingSize => some (some remainingSize)
  | .notFound => some none
  | .failed => none

/-- A run of `backfillTrader` at one of its awaits, with the records that are still to be looked up. -/
inductive Backfill
  | listing (trader : String)
  | looking (worklist : List OrderRecord)
  | reading (record : OrderRecord) (remote : Option Decimal) (worklist : List OrderRecord)
  | writing (record : OrderRecord) (accountedFilled : Decimal) (result : ReconcileResult) (worklist : List OrderRecord)
  deriving DecidableEq

/-- The tables, and the runs that share them. -/
structure History where
  db : HistoryDb
  runs : List Backfill

namespace History

/-- One transaction, or one step of a run from an await to the next. -/
inductive Action
  | backfillTrader (trader : String)
  | list (run : Nat)
  | lookup (run : Nat) (answer : Lookup)
  | readFills (run : Nat) (nowUnixSec : Decimal)
  | write (run : Nat)
  | applyFill (fill : FillRecord)
  | markOrderCancelled (orderId : String)

/-- The remote answers with a remaining size between zero and the size of the order, and names its fills. -/
def step (s : History) : Action → Option History
  | .backfillTrader trader => some { s with runs := s.runs ++ [.listing trader] }
  | .list i =>
    match s.runs[i]? with
    | some (.listing trader) => some { s with runs := s.runs.set i (.looking (s.db.listNonTerminalOrders trader)) }
    | _ => none
  | .lookup i answer =>
    match s.runs[i]? with
    | some (.looking (record :: worklist)) =>
      match answer with
      | .failed => some { s with runs := s.runs.set i (.looking worklist) }
      | .notFound => some { s with runs := s.runs.set i (.reading record none worklist) }
      | .found remainingSize =>
        if 0 ≤ remainingSize ∧ remainingSize ≤ record.size then
          some { s with runs := s.runs.set i (.reading record (some remainingSize) worklist) }
        else none
    | _ => none
  | .readFills i nowUnixSec =>
    match s.runs[i]? with
    | some (.reading record remote worklist) =>
      let accountedFilled := accountedFilledSize (s.db.fillsForOrder record.id)
      some { s with runs := s.runs.set i (.writing record accountedFilled
        (reconcileOrder record remote accountedFilled nowUnixSec) worklist) }
    | _ => none
  | .write i =>
    match s.runs[i]? with
    | some (.writing _ _ result worklist) =>
      some ⟨s.db.applyReconciliation result, s.runs.set i (.looking worklist)⟩
    | _ => none
  | .applyFill fill =>
    match fill.fillId with
    | .live _ => some { s with db := s.db.applyFill fill }
    | .backfill _ _ => none
  | .markOrderCancelled orderId => some { s with db := s.db.markOrderCancelled orderId }

end History

namespace HistoryDb

/-- A record of a run that nothing interrupts. -/
def backfillRecord (lookup : String → Lookup) (clock : String → Decimal) (db : HistoryDb) (record : OrderRecord) :
    HistoryDb :=
  match (lookup record.id).remote with
  | none => db
  | some remote =>
    db.applyReconciliation
      (reconcileOrder record remote (accountedFilledSize (db.fillsForOrder record.id)) (clock record.id))

/-- A run of `backfillTrader` that nothing interrupts, against a remote with these answers. -/
def backfillTrader (db : HistoryDb) (trader : String) (lookup : String → Lookup) (clock : String → Decimal) : HistoryDb :=
  (db.listNonTerminalOrders trader).foldl (backfillRecord lookup clock) db

end HistoryDb

end DarkPool
