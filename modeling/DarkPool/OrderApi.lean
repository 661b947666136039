import DarkPool.Engine

namespace DarkPool

inductive Code
  | invalidArgument
  | notFound
  | alreadyExists
  | permissionDenied
  | resourceExhausted
  | failedPrecondition
  | internal
  deriving DecidableEq

structure Status where
  code : Code
  message : String
  deriving DecidableEq

/-- The printers and the parser the handlers call. -/
structure ApiEnv where
  parseUuid : String → Except String Uuid
  showUuid : Uuid → String
  showDecimal : Decimal → String
  showError : EngineError → String

structure OrderInfo where
  id : String
  pair : String
  side : Int
  price : String
  size : String
  remainingSize : String
  commitmentKey : String
  submittedAtUnix : Int
  expiresAtUnix : Int
  deriving DecidableEq

def sideToProto : Side → Int
  | .buy => 1
  | .sell => 2

/-- `DateTime::timestamp`: whole seconds. -/
def unixSeconds (t : DateTime) : Int := t / 1000000000

def orderToProto (env : ApiEnv) (o : Order) : OrderInfo where
  id := env.showUuid o.id
  pair := o.pair
  side := sideToProto o.side
  price := env.showDecimal o.price
  size := env.showDecimal o.size
  remainingSize := env.showDecimal o.remainingSize
  commitmentKey := o.commitmentKey
  submittedAtUnix := unixSeconds o.submittedAt
  expiresAtUnix := unixSeconds o.expiresAt

/-- Decryption does not happen in the handlers below; its errors are not told apart here. -/
def engineErrorCode : EngineError → Code
  | .validation .orderNotFound | .validation (.pairNotRegistered _) => .notFound
  | .validation (.pairAlreadyRegistered _) | .validation .duplicateOrder => .alreadyExists
  | .validation (.pairNotAccepting _) | .validation (.cannotSuspendDelistedPair _) => .failedPrecondition
  | .validation .orderExpired | .validation (.orderExpiryTooFar _) => .failedPrecondition
  | .validation (.traderAddressMismatch _ _) => .permissionDenied
  | .validation (.tooManyRestingOrdersForTrader _) | .validation (.orderBookCapacityExceeded _) => .resourceExhausted
  | .validation .pairRequired | .validation .priceMustBePositive | .validation .sizeMustBePositive
  | .validation .commitmentKeyRequired | .validation (.orderSizeBelowMinimum _ _)
  | .validation (.orderPriceNotOnTick _ _) | .validation .saltInvalid | .validation .orderNonceInvalid
  | .validation .orderExpiryInvalid | .validation .invalidOrderProof | .validation (.encryptedPayloadTooLarge _)
  | .validation (.invalidPair _) => .invalidArgument
  | _ => .internal

def engineErrorToStatus (env : ApiEnv) (e : EngineError) : Status := ⟨engineErrorCode e, env.showError e⟩

def parseOrderId (env : ApiEnv) (s : String) : Except Status Uuid :=
  mapErr (fun e => ⟨.invalidArgument, "invalid order_id: " ++ e⟩) (env.parseUuid s)

def canonicalisePair (env : ApiEnv) (pair : String) : Except Status String :=
  mapErr (fun e => match e with
    | .pairRequired => ⟨.invalidArgument, "pair is required"⟩
    | other => ⟨.invalidArgument, env.showError (.validation other)⟩) (Pair.parse pair)

def validatePairKnown (env : ApiEnv) (state : EngineState) (pair : String) : Except Status String := do
  let canonical ← canonicalisePair env pair
  match (state.pairTokens.lookup canonical).map PairConfig.status with
  | some .active | some .suspended => return canonical
  | some .delisted | none => .error ⟨.notFound, "pair " ++ canonical ++ " is not registered"⟩

/-- Oldest first. -/
def ordersByTrader (state : EngineState) (trader : Address) : List Order :=
  (state.book.iterAll.filter (fun o => o.trader = trader)).insertionSort (fun a b => a.submittedAt ≤ b.submittedAt)

def orderNotFound (orderId : String) : Status := ⟨.notFound, "order " ++ orderId ++ " not found"⟩

inductive ApiRequest
  | getOrder (orderId : String)
  | listOrders (pair : String)
  | cancelOrder (orderId reason : String)

inductive ApiResponse
  | order (info : OrderInfo)
  | orders (infos : List OrderInfo)
  | cancelled
  | error (status : Status)

namespace Api

-- The caller has an address only if it signed in with a wallet.

variable (env : ApiEnv) (caller : Option Address) (state : EngineState)

/-- The order, if it is the caller's own. -/
def visibleOrder (id : Uuid) : Option Order := (state.book.findOrder id).filter (fun o => caller = some o.trader)

def getOrder (orderId : String) : Except Status OrderInfo := do
  let id ← parseOrderId env orderId
  match visibleOrder caller state id with
  | some o => return orderToProto env o
  | none => .error (orderNotFound orderId)

def pairFilter (pair : String) : Except Status (Option String) :=
  if pair = "" then .ok none else (validatePairKnown env state pair).map some

def listOrders (pair : String) : Except Status (List OrderInfo) :=
  match caller with
  | none => .ok []
  | some trader => do
    let pairFilter ← pairFilter env state pair
    return ((ordersByTrader state trader).filter (fun o => pairFilter.all (fun p => o.pair = p))).map (orderToProto env)

/-- The check of ownership and the cancellation are two critical sections. -/
def cancelOrder (store : Store) (now clock : DateTime) (ok : Bool) (orderId reason : String) :
    Except Status (EngineState × Store) := do
  let id ← parseOrderId env orderId
  match visibleOrder caller state id with
  | none => .error (orderNotFound orderId)
  | some _ =>
    mapErr (engineErrorToStatus env)
      (DarkPool.cancelOrder state store now clock ok id (if reason = "" then none else some reason))

end Api

/-- A request with the readings of the clocks and whether the store takes an append. -/
structure ApiCall where
  request : ApiRequest
  now : DateTime
  clock : DateTime
  ok : Bool

namespace Api

def respond {α : Type} (f : α → ApiResponse) : Except Status α → ApiResponse
  | .ok a => f a
  | .error status => .error status

/-- Answers one request; only a cancellation that goes through changes anything. -/
def serve (env : ApiEnv) (caller : Option Address) (s : EngineState × Store) (call : ApiCall) :
    ApiResponse × (EngineState × Store) :=
  match call.request with
  | .getOrder orderId => (respond .order (getOrder env caller s.1 orderId), s)
  | .listOrders pair => (respond .orders (listOrders env caller s.1 pair), s)
  | .cancelOrder orderId reason =>
    match cancelOrder env caller s.1 s.2 call.now call.clock call.ok orderId reason with
    | .ok s' => (.cancelled, s')
    | .error status => (.error status, s)

def serveAll (env : ApiEnv) (caller : Option Address) (s : EngineState × Store) :
    List ApiCall → List ApiResponse × (EngineState × Store)
  | [] => ([], s)
  | call :: calls =>
    let first := serve env caller s call
    let rest := serveAll env caller first.2 calls
    (first.1 :: rest.1, rest.2)

end Api

end DarkPool
