import DarkPool.Types

namespace DarkPool

inductive EventData
  | orderPlaced (orderId : Uuid) (commitment proof ciphertext : Bytes)
  | orderCancelled (orderId : Uuid) (reason : String)
  | orderExpired (orderId : Uuid)
  | auctionExecuted (auctionId : Uuid) (pair : String) (clearingPrice matchedVolume : Decimal)
      (matchCount : UInt32) (timestamp : DateTime)
  | orderMatched (auctionId : Uuid) (bid ask : Fill) (price size : Decimal)
  | batchSubmitted (batchId auctionId : Uuid) (txHash : String) (matchCount : UInt32) (proof : Bytes)
  | batchConfirmed (batchId : Uuid) (txHash : String)
  | batchSettled (batchId : Uuid) (blockNumber : Nat) (txHash : String)
  | pairRegistered (pair baseToken quoteToken : String) (minOrderSize tickSize : Decimal)
      (auctionIntervalMs : Option Nat) (baseDecimals quoteDecimals : UInt8)
  | pairSuspended (pair : String)
  | pairDelisted (pair : String)
  | batchFolded (batchId : Uuid) (roundIndex : Nat) (pair : String) (inputRoot : Bytes)
  deriving DecidableEq

structure Event where
  seq : Nat
  timestamp : DateTime
  data : EventData
  deriving DecidableEq

/-- An event as its writer builds it: the store assigns the sequence number. -/
def Event.unsequenced (timestamp : DateTime) (data : EventData) : Event := ⟨0, timestamp, data⟩

def assignSeqAndTimestamp (clock : DateTime) (seq : Nat) (event : Event) : Event :=
  { event with
    seq := seq + 1
    timestamp := if event.timestamp = 0 then clock else event.timestamp }

structure Store where
  events : List Event
  seq : Nat
  deriving DecidableEq

namespace Store

def empty : Store := ⟨[], 0⟩

def stamp (clock : DateTime) : Nat → List Event → List Event
  | _, [] => []
  | seq, event :: events =>
    assignSeqAndTimestamp clock seq event :: stamp clock (seq + 1) events

/-- Appends all the events or, when the backend fails, none of them. The stamped
events are handed back to the caller. -/
def append (store : Store) (clock : DateTime) (ok : Bool) (events : List Event) :
    Option (Store × List Event) :=
  if ok then
    let stamped := stamp clock store.seq events
    some (⟨store.events ++ stamped, store.seq + events.length⟩, stamped)
  else none

/-- The position after `afterSeq`, found by sequence number since a compacted log
does not start at 1. -/
def indexAfter (events : List Event) (afterSeq : Nat) : Nat :=
  if afterSeq = 0 then 0 else (events.takeWhile (fun e => e.seq ≤ afterSeq)).length

/-- At most `limit` events after `afterSeq`; a zero limit is refused. -/
def readFrom (store : Store) (afterSeq limit : Nat) : Option (List Event) :=
  if limit = 0 then none
  else some ((store.events.drop (indexAfter store.events afterSeq)).take limit)

def lastSeq (store : Store) : Nat := store.seq

def compactBefore (store : Store) (beforeSeq : Nat) : Store :=
  if beforeSeq = 0 then store else { store with events := store.events.filter (fun e => beforeSeq ≤ e.seq) }

end Store

end DarkPool
