import DarkPool.Batch

namespace DarkPool

/-- What `recover` carries while it replays: the engine state with its round counters, and the
bookkeeping it needs for settlement rows and for orphan auctions. -/
structure Replay where
  state : EngineState
  ivcRound : Table String Nat
  matchesByAuction : Table Uuid (List Match)
  auctionTimestamps : Table Uuid DateTime
  placedOrders : Table Uuid Order

def Replay.start (state : EngineState) (ivcRound : Table String Nat) : Replay :=
  ⟨state.resetProjection, ivcRound, ∅, ∅, ∅⟩

/-- `parse::<Address>()`: an optional `0x`, then forty hex digits of either case. -/
def parseAddress (s : String) : Option Address :=
  let digits := match s.toList with
    | '0' :: 'x' :: cs => cs
    | cs => cs
  if digits.length = 40 then (Radix.ofHex digits).map (BitVec.ofNat 160) else none

def parseAddressOrZero (s : String) : Address := (parseAddress s).getD 0

def canonicaliseReplayedPair (pair : String) : String :=
  match Pair.parse pair with
  | .ok key => key
  | .error _ => pair

/-- Rows that do not resolve are skipped. -/
def buildRecoverySettlementMatches (matchList : List Match) (placedOrders : Table Uuid Order)
    (pairTokens : Table String PairConfig) : List SettlementMatch :=
  matchList.filterMap (fun m => (tryBuildSettlementRow m placedOrders pairTokens).toOption)

/-- The order an `OrderPlaced` event stands for, and the keys it spends. -/
structure ReplayedOrder where
  order : Order
  digest : Bytes32
  replay : ReplayProtection

section Events

variable (env : Env)

def replayOrder (ev : Event) (orderId : Uuid) (commitment ciphertext : Bytes) : Except EngineError ReplayedOrder :=
  match env.decrypt ciphertext with
  | none => .error (.recoverDecrypt orderId)
  | some d => do
    let salt ← mapErr (fun _ => EngineError.recoverSaltInvalid orderId) (parseOrderSalt d.salt)
    let recomputed ← recomputePersistedCommitment env (addressBytes d.trader) d.side.code d.price d.size salt
    let commitmentFr ← mapErr .commitmentEncoding (bytes32ToScalar recomputed.toVec)
    let saltFr ← mapErr .commitmentEncoding (bytes32ToScalar salt.toVec)
    let nullifier := frToBytes32 (computeNullifierNative env commitmentFr saltFr)
    if recomputed.toVec ≠ commitment then .error (.recoverCommitmentMismatch orderId)
    else
      let nonce ← mapErr (fun _ => EngineError.validation .orderNonceInvalid) (parseOrderNonce d.nonce)
      let expiresAt ← orderExpiryFromUnixNanos d.expiresAtUnixNanos
      let pairKey ← mapErr .validation (Pair.parse d.pair)
      let order : Order :=
        { id := orderId, trader := d.trader, pair := pairKey, side := d.side, price := d.price, size := d.size,
          remainingSize := d.size, commitmentKey := d.commitmentKey, encryptedPayload := ciphertext,
          submittedAt := ev.timestamp, expiresAt := expiresAt, seq := ev.seq }
      return ⟨order, ciphertextDigest env ciphertext, nullifier, orderNonceDigest env d.trader nonce⟩

/-- `entry(pair).or_default()`, for logs older than the pair registry. -/
def orDefault (pairTokens : Table String PairConfig) (pair : String) : Table String PairConfig :=
  if (pairTokens.lookup pair).isSome then pairTokens else pairTokens.insert pair PairConfig.default

def replayedConfig (baseToken quoteToken : String) (minOrderSize tickSize : Decimal) (auctionIntervalMs : Option Nat)
    (baseDecimals quoteDecimals : UInt8) : PairConfig where
  baseToken := parseAddressOrZero baseToken
  quoteToken := parseAddressOrZero quoteToken
  baseDecimals := baseDecimals
  quoteDecimals := quoteDecimals
  minOrderSize := minOrderSize
  tickSize := tickSize
  auctionInterval := auctionIntervalMs.map fromMillis
  status := .active

def EngineState.applyEvent (state : EngineState) (ev : Event) : EngineState := state.withBook (state.book.apply ev)

def EngineState.setStatus (state : EngineState) (key : String) (status : PairStatus) : EngineState :=
  state.withPairTokens (state.pairTokens.modify key (fun c => c.withStatus status))

def Replay.withState (r : Replay) (state : EngineState) : Replay := { r with state := state }

def Replay.place (r : Replay) (ev : Event) (p : ReplayedOrder) : Replay :=
  let state := r.state.applyEvent ev
  let state := state.withPairTokens (orDefault state.pairTokens p.order.pair)
  let state := state.withBook (state.book.insertOrder p.order)
  { r with
    state := state.spend p.digest p.replay
    placedOrders := r.placedOrders.insert p.order.id p.order }

/-- Takes the matches logged so far for the auction; a batch the snapshot already held is kept. -/
def Replay.submit (r : Replay) (ev : Event) (batchId auctionId : Uuid) (proof : Bytes) : Replay :=
  let matchList := (r.matchesByAuction.lookup auctionId).getD []
  let r := { r with matchesByAuction := r.matchesByAuction.erase auctionId, state := r.state.applyEvent ev }
  if (r.state.pendingBatches.lookup batchId).isSome then r
  else
    let rows := buildRecoverySettlementMatches matchList r.placedOrders r.state.pairTokens
    let batch := newPendingBatch batchId auctionId matchList rows proof
    r.withState (r.state.withPendingBatches (r.state.pendingBatches.insert batchId batch))

def replayEvent (r : Replay) (ev : Event) : Except EngineError Replay :=
  match ev.data with
  | .orderPlaced orderId commitment _ ciphertext => do
    let p ← replayOrder env ev orderId commitment ciphertext
    return r.place ev p
  | .orderCancelled _ _ | .orderExpired _ => .ok (r.withState (r.state.applyEvent ev))
  | .auctionExecuted auctionId pair clearingPrice matchedVolume matchCount timestamp =>
    let state := r.state.applyEvent ev
    let record := ⟨auctionId, pair, clearingPrice, matchedVolume, matchCount, timestamp⟩
    .ok { r with
      state := { state with auctionLog := state.auctionLog ++ [record] }
      auctionTimestamps := r.auctionTimestamps.insert auctionId timestamp }
  | .orderMatched auctionId bid ask price size =>
    let known := (r.matchesByAuction.lookup auctionId).getD []
    .ok { r with
      state := r.state.applyEvent ev
      matchesByAuction := r.matchesByAuction.insert auctionId (known ++ [⟨bid, ask, price, size⟩]) }
  | .batchSubmitted batchId auctionId _ _ proof => .ok (r.submit ev batchId auctionId proof)
  | .batchConfirmed batchId _ | .batchSettled batchId _ _ => .ok (r.withState (closeBatch r.state batchId ev))
  | .pairRegistered pair baseToken quoteToken minOrderSize tickSize auctionIntervalMs baseDecimals quoteDecimals =>
    let state := r.state.applyEvent ev
    let config := replayedConfig baseToken quoteToken minOrderSize tickSize auctionIntervalMs baseDecimals
      quoteDecimals
    .ok (r.withState (state.withPairTokens (state.pairTokens.insert (canonicaliseReplayedPair pair) config)))
  | .pairSuspended pair =>
    .ok (r.withState ((r.state.applyEvent ev).setStatus (canonicaliseReplayedPair pair) .suspended))
  | .pairDelisted pair =>
    .ok (r.withState ((r.state.applyEvent ev).setStatus (canonicaliseReplayedPair pair) .delisted))
  | .batchFolded _ roundIndex pair _ =>
    let round := (r.ivcRound.lookup pair).getD 0
    .ok { r with ivcRound := r.ivcRound.insert pair (Nat.max round roundIndex) }

def replayAll (r : Replay) (events : List Event) : Except EngineError Replay := events.foldlM (replayEvent env) r

def recoverBatch : Nat := 1024

/-- The read loop of `recover`: batches of at most `recoverBatch` events until one comes back
empty. The first argument bounds the number of batches. -/
def replayLoop (store : Store) : Nat → Nat → Replay → Except EngineError Replay
  | 0, _, _ => .error .event
  | fuel + 1, afterSeq, r =>
    match store.readFrom afterSeq recoverBatch with
    | none => .error .event
    | some events =>
      match events.getLast? with
      | none => .ok r
      | some last => do
        let r ← replayAll env r events
        replayLoop store fuel last.seq r

end Events

/-- What recovery draws and is told for one orphan auction: a batch id, the aggregator's proof if it
gives one, and the clocks and outcome of the append. -/
structure OrphanChoice where
  batchId : Uuid
  proof : Option Bytes
  now : DateTime
  clock : DateTime
  ok : Bool

/-- Re-aggregates one auction that has matches and no batch; an aggregator error skips it. -/
def reaggregate (choice : Uuid → OrphanChoice) (rs : Replay × Store) (auctionId : Uuid) :
    Except EngineError (Replay × Store) :=
  let (r, store) := rs
  let c := choice auctionId
  let matchList := (r.matchesByAuction.lookup auctionId).getD []
  let r := { r with matchesByAuction := r.matchesByAuction.erase auctionId }
  match c.proof with
  | none => .ok (r, store)
  | some proof => do
    let ts := (r.auctionTimestamps.lookup auctionId).getD c.now
    let (store, events) ← appendEvents store c.clock c.ok [submittedEvent ts c.batchId auctionId matchList proof]
    let state := r.state.withBook (r.state.book.applyAll events)
    let rows := buildRecoverySettlementMatches matchList r.placedOrders state.pairTokens
    let batch := newPendingBatch c.batchId auctionId matchList rows proof
    return (r.withState (state.withPendingBatches (state.pendingBatches.insert c.batchId batch)), store)

def orphanIds (r : Replay) : List Uuid := r.matchesByAuction.keys.insertionSort (· ≤ ·)

def reaggregateOrphans (choice : Uuid → OrphanChoice) (r : Replay) (store : Store) :
    Except EngineError (Replay × Store) :=
  (orphanIds r).foldlM (reaggregate choice) (r, store)

/-- The snapshots of a store, by ascending sequence number, as they decode; the seq of an envelope
is also its key. -/
abbrev Snapshots := List (Nat × SerializableState)

/-- Walks the envelopes from the newest to the oldest for one that decodes. -/
def tryRestoreFromSnapshots (decodes : Nat → Bool) (snapshots : Snapshots) : Option (Nat × SerializableState) :=
  snapshots.reverse.find? (fun e => decodes e.1)

def eventLogCoversSeqOne (store : Store) : Bool :=
  match (store.readFrom 0 1).bind List.head? with
  | some e => e.seq = 1
  | none => false

def eventLogContinuousAfter (store : Store) (afterSeq : Nat) : Bool :=
  match (store.readFrom afterSeq 1).bind List.head? with
  | some e => e.seq = afterSeq + 1
  | none => true

def Replay.restore (r : Replay) (snap : SerializableState) : Replay :=
  { r with
    state := r.state.restoreFromSerializable snap
    placedOrders := snap.book.iterAll.foldl (fun t o => t.insert o.id o) r.placedOrders }

/-- Where replay starts: after the newest snapshot that decodes if the log continues it, or from the
beginning if the log still has it. -/
def recoverStart (store : Store) (r : Replay) (snapshots : Option Snapshots) (decodes : Nat → Bool) :
    Except EngineError (Replay × Nat) :=
  match snapshots with
  | none => .ok (r, 0)
  | some [] => .ok (r, 0)
  | some (s :: ss) =>
    match tryRestoreFromSnapshots decodes (s :: ss) with
    | some (seq, snap) =>
      if eventLogContinuousAfter store seq then .ok (r.restore snap, seq)
      else .error .snapshotsCorruptAndLogTruncated
    | none =>
      if eventLogCoversSeqOne store then .ok (r, 0) else .error .snapshotsCorruptAndLogTruncated

/-- `recover`: restore, replay, re-aggregate the orphans. -/
def recover (env : Env) (state : EngineState) (ivcRound : Table String Nat) (store : Store)
    (snapshots : Option Snapshots) (decodes : Nat → Bool) (choice : Uuid → OrphanChoice) :
    Except EngineError (EngineState × Table String Nat × Store) :=
  if state.recovered then .ok (state, ivcRound, store)
  else do
    let (r, afterSeq) ← recoverStart store (Replay.start state ivcRound) snapshots decodes
    let r ← replayLoop env store (store.events.length + 1) afterSeq r
    let (r, store) ← reaggregateOrphans choice r store
    return ({ r.state with recovered := true }, r.ivcRound, store)

end DarkPool
