import DarkPool.Book
import DarkPool.Pair

namespace DarkPool

/-- A `std::time::Duration`, in nanoseconds. -/
abbrev Duration := Nat

/-- `as_millis() as u64`: the cast keeps the low 64 bits. -/
def asMillis (d : Duration) : Nat := d / 1000000 % 2 ^ 64

def fromMillis (ms : Nat) : Duration := ms * 1000000

inductive PairStatus
  | active
  | suspended
  | delisted
  deriving DecidableEq

def PairStatus.isActive : PairStatus → Bool
  | .active => true
  | _ => false

def defaultTokenDecimals : UInt8 := 18

structure PairConfig where
  baseToken : Address
  quoteToken : Address
  baseDecimals : UInt8
  quoteDecimals : UInt8
  minOrderSize : Decimal
  tickSize : Decimal
  auctionInterval : Option Duration
  status : PairStatus
  deriving DecidableEq

namespace PairConfig

def new (baseToken quoteToken : Address) : PairConfig where
  baseToken := baseToken
  quoteToken := quoteToken
  baseDecimals := defaultTokenDecimals
  quoteDecimals := defaultTokenDecimals
  minOrderSize := 0
  tickSize := 0
  auctionInterval := none
  status := .active

def default : PairConfig := new 0 0

def withStatus (cfg : PairConfig) (status : PairStatus) : PairConfig := { cfg with status := status }

end PairConfig

structure SettlementMatch where
  bidOrderId : Uuid
  askOrderId : Uuid
  bidTrader : Address
  askTrader : Address
  baseToken : Address
  quoteToken : Address
  price : Decimal
  size : Decimal
  deriving DecidableEq

inductive SettlementResolveErr
  | orderMissing (orderId : Uuid)
  | pairMissing (pair : String)
  deriving DecidableEq

def tryBuildSettlementRow (m : Match) (orders : Table Uuid Order) (pairs : Table String PairConfig) :
    Except SettlementResolveErr SettlementMatch :=
  match orders.lookup m.bid.orderId with
  | none => .error (.orderMissing m.bid.orderId)
  | some bid =>
    match orders.lookup m.ask.orderId with
    | none => .error (.orderMissing m.ask.orderId)
    | some ask =>
      match pairs.lookup bid.pair with
      | none => .error (.pairMissing bid.pair)
      | some cfg =>
        .ok {
          bidOrderId := m.bid.orderId
          askOrderId := m.ask.orderId
          bidTrader := bid.trader
          askTrader := ask.trader
          baseToken := cfg.baseToken
          quoteToken := cfg.quoteToken
          price := m.price
          size := m.size }

/-- The one variant of the source's `ProofPayload`, `IvcFinal`. -/
structure ProofPayload where
  proofBytes : Bytes
  z0 : Vector Bytes32 5
  zN : Vector Bytes32 5
  nSteps : Nat
  policyHash : Bytes32
  deriving DecidableEq

/-- A `std::time::Instant`. -/
abbrev Instant := Nat

structure PendingBatch where
  batchId : Uuid
  auctionId : Uuid
  matchList : List Match
  settlementMatches : List SettlementMatch
  proof : Bytes
  publicInputs : Vector (BitVec 256) 6
  ivcPayload : Option ProofPayload
  attempts : Nat
  nextAttempt : Option Instant
  submitting : Bool
  deriving DecidableEq

structure AuctionExecutedRecord where
  auctionId : Uuid
  pair : String
  clearingPrice : Decimal
  matchedVolume : Decimal
  matchCount : UInt32
  timestamp : DateTime
  deriving DecidableEq

/-- The fields recovery rebuilds; the retry bounds and the `recovered` flag are not among them. -/
structure SerializableState where
  book : OrderBook
  pairTokens : Table String PairConfig
  auctionLog : List AuctionExecutedRecord
  pendingBatches : Table Uuid PendingBatch
  seenCiphertexts : Finset Bytes32
  spentNullifiers : Finset Bytes32
  spentOrderNonces : Finset Bytes32
  deriving DecidableEq

structure EngineState extends SerializableState where
  minBackoff : Duration
  maxBackoff : Duration
  recovered : Bool
  deriving DecidableEq

def defaultMinBackoff : Duration := 1000000000

def defaultMaxBackoff : Duration := 60000000000

def SerializableState.empty : SerializableState where
  book := OrderBook.empty
  pairTokens := ∅
  auctionLog := []
  pendingBatches := ∅
  seenCiphertexts := ∅
  spentNullifiers := ∅
  spentOrderNonces := ∅

namespace EngineState

def new : EngineState where
  toSerializableState := SerializableState.empty
  minBackoff := defaultMinBackoff
  maxBackoff := defaultMaxBackoff
  recovered := false

def resetProjection (state : EngineState) : EngineState :=
  { state with toSerializableState := SerializableState.empty }

def pairConfig (state : EngineState) (pair : String) : Option PairConfig := state.pairTokens.lookup pair

def toSerializable (state : EngineState) : SerializableState := state.toSerializableState

def restoreFromSerializable (state : EngineState) (snap : SerializableState) : EngineState :=
  { state with toSerializableState := snap }

end EngineState

/-- Doubles with each attempt, shifts at most 31 times and is clamped to `max`. -/
def computeBackoff (min max : Duration) (attempts : Nat) : Duration :=
  if min = 0 then 0
  else
    let shift := Nat.min (Nat.max attempts 1 - 1) 31
    let nanos := min * 2 ^ shift
    if max < nanos then max else Nat.min nanos (2 ^ 64 - 1)

end DarkPool
