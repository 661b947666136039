import DarkPool.BookFill
import DarkPool.Recover

namespace DarkPool

/-- What the event log is the source of truth for: the resting orders, the registry, the auction
history, the spent keys and the ids of the batches that await settlement. -/
@[ext] structure Projection where
  books : Table String PerPairBook
  pairTokens : Table String PairConfig
  auctionLog : List AuctionExecutedRecord
  pending : Finset Uuid
  seenCiphertexts : Finset Bytes32
  spentNullifiers : Finset Bytes32
  spentOrderNonces : Finset Bytes32

def SerializableState.projection (s : SerializableState) : Projection where
  books := s.book.books
  pairTokens := s.pairTokens
  auctionLog := s.auctionLog
  pending := s.pendingBatches.keySet
  seenCiphertexts := s.seenCiphertexts
  spentNullifiers := s.spentNullifiers
  spentOrderNonces := s.spentOrderNonces

abbrev EngineState.projection (s : EngineState) : Projection := s.toSerializableState.projection

/-- What an event does to the resting orders, whatever its sequence number. -/
def applyBooks (books : Table String PerPairBook) (data : EventData) : Table String PerPairBook :=
  (OrderBook.applyData ⟨books, 0⟩ data).books

namespace Projection

def empty : Projection := SerializableState.empty.projection

def place (p : Projection) (o : ReplayedOrder) : Projection :=
  { p with
    books := (OrderBook.insertOrder ⟨p.books, 0⟩ o.order).books
    pairTokens := orDefault p.pairTokens o.order.pair
    seenCiphertexts := insert o.digest p.seenCiphertexts
    spentNullifiers := insert o.replay.nullifier p.spentNullifiers
    spentOrderNonces := insert o.replay.orderNonceDigest p.spentOrderNonces }

def setStatus (p : Projection) (pair : String) (status : PairStatus) : Projection :=
  { p with pairTokens := p.pairTokens.modify (canonicaliseReplayedPair pair) (fun c => c.withStatus status) }

/-- The meaning of an event. An order that does not decrypt to what it committed to has none. -/
def apply (env : Env) (p : Projection) (ev : Event) : Projection :=
  match ev.data with
  | .orderPlaced orderId commitment _ ciphertext =>
    match replayOrder env ev orderId commitment ciphertext with
    | .ok o => p.place o
    | .error _ => p
  | .orderCancelled _ _ | .orderExpired _ | .orderMatched _ _ _ _ _ => { p with books := applyBooks p.books ev.data }
  | .auctionExecuted auctionId pair clearingPrice matchedVolume matchCount timestamp =>
    { p with
      auctionLog := p.auctionLog ++ [⟨auctionId, pair, clearingPrice, matchedVolume, matchCount, timestamp⟩] }
  | .batchSubmitted batchId _ _ _ _ => { p with pending := insert batchId p.pending }
  | .batchConfirmed batchId _ | .batchSettled batchId _ _ => { p with pending := p.pending.erase batchId }
  | .pairRegistered pair baseToken quoteToken minOrderSize tickSize auctionIntervalMs baseDecimals quoteDecimals =>
    { p with
      pairTokens := p.pairTokens.insert (canonicaliseReplayedPair pair)
        (replayedConfig baseToken quoteToken minOrderSize tickSize auctionIntervalMs baseDecimals quoteDecimals) }
  | .pairSuspended pair => p.setStatus pair .suspended
  | .pairDelisted pair => p.setStatus pair .delisted
  | .batchFolded _ _ _ _ => p

def applyAll (env : Env) (p : Projection) (events : List Event) : Projection := events.foldl (apply env) p

theorem applyAll_append (env : Env) (p : Projection) (xs ys : List Event) :
    p.applyAll env (xs ++ ys) = (p.applyAll env xs).applyAll env ys := List.foldl_append

end Projection

/-- The state the whole log stands for. -/
def projectLog (env : Env) (events : List Event) : Projection := Projection.empty.applyAll env events

/-- Replay can read the event back. -/
def Replayable (env : Env) (ev : Event) : Prop :=
  match ev.data with
  | .orderPlaced orderId commitment _ ciphertext => ∃ o, replayOrder env ev orderId commitment ciphertext = .ok o
  | _ => True

namespace OrderBook

theorem removeOrder_withSeq (inner : OrderBook) (n : Nat) (id : Uuid) :
    (inner.withSeq n).removeOrder id = (inner.removeOrder id).withSeq n := by
  have hlocate : (inner.withSeq n).locate id = inner.locate id := rfl
  unfold removeOrder
  rw [hlocate]
  cases inner.locate id <;> rfl

theorem applyData_withSeq (inner : OrderBook) (n : Nat) (data : EventData) :
    (inner.withSeq n).applyData data = (inner.applyData data).withSeq n := by
  cases data <;> simp [applyData, removeOrder_withSeq, applyFill_withSeq]

theorem books_applyData (inner : OrderBook) (data : EventData) :
    (inner.applyData data).books = applyBooks inner.books data := by
  have hseq : inner = OrderBook.withSeq ⟨inner.books, 0⟩ inner.seq := rfl
  rw [hseq, applyData_withSeq]
  rfl

/-- An event newer than the book acts by its meaning. -/
theorem books_apply {inner : OrderBook} {ev : Event} (h : inner.seq < ev.seq) :
    (inner.apply ev).books = applyBooks inner.books ev.data := by
  unfold apply
  rw [if_neg (by omega), books_applyData]
  rfl

theorem seq_apply {inner : OrderBook} {ev : Event} (h : inner.seq < ev.seq) : (inner.apply ev).seq = ev.seq := by
  unfold apply
  rw [if_neg (by omega), seq_applyData]
  exact max_eq_right h.le

/-- Late or not, an event that moves no order leaves the resting orders alone. -/
theorem books_apply_of_inert {inner : OrderBook} {ev : Event} (h : ∀ b, applyBooks b ev.data = b) :
    (inner.apply ev).books = inner.books := by
  unfold apply
  split
  next => rfl
  next =>
    rw [books_applyData, h]
    rfl

theorem seq_apply_le (inner : OrderBook) (ev : Event) : (inner.apply ev).seq ≤ max inner.seq ev.seq := by
  unfold apply
  split
  next => exact le_max_left _ _
  next => rw [seq_applyData]; exact le_rfl

end OrderBook

end DarkPool
