import DarkPool.Admission

namespace DarkPool

/-- `Store::append` as the engine calls it. A backend that fails has stored nothing. -/
def appendEvents (store : Store) (clock : DateTime) (ok : Bool) (events : List Event) :
    Except EngineError (Store × List Event) :=
  match store.append clock ok events with
  | some r => .ok r
  | none => .error .event

namespace EngineState

def withPairTokens (state : EngineState) (pairTokens : Table String PairConfig) : EngineState :=
  { state with pairTokens := pairTokens }

def withBook (state : EngineState) (book : OrderBook) : EngineState := { state with book := book }

def withPendingBatches (state : EngineState) (pending : Table Uuid PendingBatch) : EngineState :=
  { state with pendingBatches := pending }

/-- The projections an admitted order leaves behind besides its book entry. -/
def spend (state : EngineState) (digest : Bytes32) (replay : ReplayProtection) : EngineState :=
  { state with
    seenCiphertexts := insert digest state.seenCiphertexts
    spentNullifiers := insert replay.nullifier state.spentNullifiers
    spentOrderNonces := insert replay.orderNonceDigest state.spentOrderNonces }

end EngineState

def registeredData (key : String) (config : PairConfig) : EventData :=
  .pairRegistered key (formatAddress config.baseToken) (formatAddress config.quoteToken) config.minOrderSize
    config.tickSize (config.auctionInterval.map asMillis) config.baseDecimals config.quoteDecimals

section Calls

-- One critical section each: the state under its lock, the store, the engine's clock reading, and
-- from the store its own clock and whether the append goes through. An error changes nothing.

variable (state : EngineState) (store : Store) (now clock : DateTime) (ok : Bool)

def registerPairWithEvent (pair : String) (config : PairConfig) : Except EngineError (EngineState × Store) := do
  let key ← mapErr .validation (Pair.parse pair)
  if (state.pairTokens.lookup key).isSome then .error (.validation (.pairAlreadyRegistered key))
  else
    let (store, _) ← appendEvents store clock ok [Event.unsequenced now (registeredData key config)]
    return (state.withPairTokens (state.pairTokens.insert key config), store)

def suspendPair (pair : String) : Except EngineError (EngineState × Store) := do
  let key ← mapErr .validation (Pair.parse pair)
  match state.pairTokens.lookup key with
  | none => .error (.validation (.pairNotRegistered key))
  | some cfg =>
    match cfg.status with
    | .suspended => return (state, store)
    | .delisted => .error (.validation (.cannotSuspendDelistedPair key))
    | .active =>
      let (store, _) ← appendEvents store clock ok [Event.unsequenced now (.pairSuspended key)]
      return (state.withPairTokens (state.pairTokens.modify key (fun c => c.withStatus .suspended)), store)

def delistEvents (key : String) (openIds : List Uuid) : List Event :=
  openIds.map (fun id => Event.unsequenced now (.orderCancelled id "pair delisted")) ++
    [Event.unsequenced now (.pairDelisted key)]

/-- `openIds` is what the book answers for the pair, in the order its hash maps yield. Also
returns the orders whose secrets are dropped after the lock is released. -/
def delistPair (pair : String) (openIds : List Uuid) :
    Except EngineError (EngineState × Store × List Uuid) := do
  let key ← mapErr .validation (Pair.parse pair)
  match state.pairTokens.lookup key with
  | none => .error (.validation (.pairNotRegistered key))
  | some cfg =>
    match cfg.status with
    | .delisted => return (state, store, [])
    | _ =>
      let (store, events) ← appendEvents store clock ok (delistEvents now key openIds)
      let state := state.withBook (state.book.applyAll events)
      return (state.withPairTokens (state.pairTokens.modify key (fun c => c.withStatus .delisted)), store, openIds)

def cancelOrder (orderId : Uuid) (reason : Option String) : Except EngineError (EngineState × Store) :=
  if state.book.hasOrder orderId then do
    let event := Event.unsequenced now (.orderCancelled orderId (reason.getD "user cancelled"))
    let (store, events) ← appendEvents store clock ok [event]
    return (state.withBook (state.book.applyAll events), store)
  else .error (.validation .orderNotFound)

def checkAccepting (pair : String) : Except EngineError Unit :=
  match state.pairConfig pair with
  | some cfg => if cfg.status = .active then .ok () else .error (.validation (.pairNotAccepting pair))
  | none => .error (.validation (.pairNotRegistered pair))

/-- The replay checks made under the lock that appends and inserts. -/
def checkUnspent (digest : Bytes32) (replay : ReplayProtection) : Except EngineError Unit :=
  if digest ∈ state.seenCiphertexts ∨ replay.nullifier ∈ state.spentNullifiers ∨
      replay.orderNonceDigest ∈ state.spentOrderNonces then .error (.validation .duplicateOrder)
  else .ok ()

/-- Books the order under the sequence number the store gave its event and keeps its secrets. -/
def persistOrderPlaced (env : Env) (secrets : Table Uuid OrderSecrets) (p : Placement) :
    Except EngineError (EngineState × Store × Table Uuid OrderSecrets) := do
  let digest := ciphertextDigest env p.ciphertext
  checkAccepting state p.order.pair
  checkUnspent state digest p.replay
  ensureOrderCapacity state p.order.trader
  let event := Event.unsequenced p.order.submittedAt (.orderPlaced p.order.id p.commitment p.proof p.ciphertext)
  let (store, events) ← appendEvents store clock ok [event]
  let book := (state.book.applyAll events).insertOrder { p.order with seq := (events.headD event).seq }
  return ((state.withBook book).spend digest p.replay, store, secrets.insert p.order.id p.secrets)

end Calls

def dropSecret (secrets : Table Uuid OrderSecrets) (orderId : Uuid) : Table Uuid OrderSecrets := secrets.erase orderId

def pruneDeadSecrets (secrets : Table Uuid OrderSecrets) (state : EngineState) : Table Uuid OrderSecrets :=
  secrets.retain (fun id _ => state.book.hasOrder id)

end DarkPool
