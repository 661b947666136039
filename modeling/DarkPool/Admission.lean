import DarkPool.State

namespace DarkPool

structure DecryptedOrder where
  trader : Address
  pair : String
  side : Side
  price : Decimal
  size : Decimal
  commitmentKey : String
  salt : String
  nonce : String
  expiresAtUnixNanos : Int
  deriving DecidableEq

/-- What an engine is wired with and never changes while it runs: the decrypter, the
order-proof verifier if one is installed, and the two hash functions. -/
structure Env where
  decrypt : Bytes → Option DecryptedOrder
  orderProofVerifier : Option (Bytes → Fr → Fr → Bool)
  poseidon : List Fr → Fr
  sha256 : Bytes → Bytes32

structure OrderSecrets where
  salt : Bytes32
  traderId : Bytes32
  commitment : Bytes32
  nullifier : Bytes32
  balance : Decimal
  position : Int
  deriving DecidableEq

structure ReplayProtection where
  nullifier : Bytes32
  orderNonceDigest : Bytes32
  deriving DecidableEq

def maxTtlSeconds : Nat := 24 * 60 * 60

def maxEncryptedPayloadBytes : Nat := 128 * 1024

def maxActiveOrdersPerTrader : Nat := 128

def maxActiveOrders : Nat := 16 * 1024

/-- `side as u8`. -/
def Side.code : Side → Nat
  | .buy => 0
  | .sell => 1

/-- `format!("{:#x}", a)`. -/
def formatAddress (a : Address) : String := String.ofList ('0' :: 'x' :: Radix.toHex 40 a.toNat)

def asciiBytes (s : String) : Bytes := s.toList.map (fun c => UInt8.ofNat c.toNat)

section Digests

variable (env : Env)

def ciphertextDigest (ciphertext : Bytes) : Bytes32 := env.sha256 ciphertext

def orderNonceDigest (trader : Address) (nonce : Bytes32) : Bytes32 :=
  env.sha256 (asciiBytes "darkpool/order-nonce/v1" ++ addressBytes trader ++ nonce.toVec)

def deriveTraderId (addr : Bytes) : Except EncodingError Fr := do
  let scalar ← bytesToScalar addr
  return env.poseidon [scalar]

def deriveTraderIdBytes (addr : Bytes) : Except EncodingError Bytes32 := do
  let id ← deriveTraderId env addr
  return frToBytes32 id

structure OrderCommitmentInput where
  traderId : Fr
  side : Fr
  limitPrice : Fr
  size : Fr
  salt : Fr

def OrderCommitmentInput.fromDecimals (traderId : Fr) (side : Nat) (limitPrice size : Decimal) (salt : Fr) :
    Except EncodingError OrderCommitmentInput := do
  let price ← decimalToScalar limitPrice
  let size ← decimalToScalar size
  return ⟨traderId, if side = 0 then 0 else 1, price, size, salt⟩

def OrderCommitmentInput.asFieldElements (i : OrderCommitmentInput) : List Fr :=
  [i.traderId, i.side, i.limitPrice, i.size, i.salt]

def commitNative (input : OrderCommitmentInput) : Fr := env.poseidon input.asFieldElements

def nullifierDomain : Fr := (Radix.ofBytes (asciiBytes "DP/order-nullifier/v1") : Fr)

def computeNullifierNative (commitment salt : Fr) : Fr := env.poseidon [nullifierDomain, commitment, salt]

def computePoseidonCommitmentFr (traderId : Bytes32) (side : Nat) (price size : Decimal) (salt : Bytes32) :
    Except EngineError Fr := do
  let traderFr ← mapErr .commitmentEncoding (bytes32ToScalar traderId.toVec)
  let saltFr ← mapErr .commitmentEncoding (bytes32ToScalar salt.toVec)
  let input ← mapErr .commitmentEncoding (OrderCommitmentInput.fromDecimals traderFr side price size saltFr)
  return commitNative env input

def computePoseidonCommitment (traderId : Bytes32) (side : Nat) (price size : Decimal) (salt : Bytes32) :
    Except EngineError Bytes32 := do
  let commitment ← computePoseidonCommitmentFr env traderId side price size salt
  return frToBytes32 commitment

def deriveOrderSecrets (traderAddr : Bytes) (side : Nat) (price size balance : Decimal) (position : Int)
    (salt : Bytes32) : Except EngineError OrderSecrets := do
  let traderId ← mapErr .commitmentEncoding (deriveTraderIdBytes env traderAddr)
  let commitment ← computePoseidonCommitmentFr env traderId side price size salt
  let saltFr ← mapErr .commitmentEncoding (bytes32ToScalar salt.toVec)
  let nullifier := computeNullifierNative env commitment saltFr
  return ⟨salt, traderId, frToBytes32 commitment, frToBytes32 nullifier, balance, position⟩

def recomputePersistedCommitment (traderAddr : Bytes) (side : Nat) (price size : Decimal) (salt : Bytes32) :
    Except EngineError Bytes32 := do
  let traderId ← mapErr .commitmentEncoding (deriveTraderIdBytes env traderAddr)
  computePoseidonCommitment env traderId side price size salt

end Digests

def isLowercaseHexDigit (c : Char) : Bool := ('0' ≤ c && c ≤ '9') || ('a' ≤ c && c ≤ 'f')

def parseLowercaseHex32 (hexValue : String) (err : DarkPoolError) : Except EngineError Bytes32 :=
  if hexValue.toList.length ≠ 64 ∨ ¬ hexValue.toList.all isLowercaseHexDigit then .error (.validation err)
  else
    match Radix.ofHex hexValue.toList with
    | some n => .ok (BitVec.ofNat 256 n)
    | none => .error (.validation err)

def parseOrderSalt (saltHex : String) : Except EngineError Bytes32 := do
  let bytes ← parseLowercaseHex32 saltHex .saltInvalid
  let _ ← mapErr (fun _ => EngineError.validation .saltInvalid) (bytes32ToScalar bytes.toVec)
  return bytes

def parseOrderNonce (nonceHex : String) : Except EngineError Bytes32 :=
  parseLowercaseHex32 nonceHex .orderNonceInvalid

/-- Every positive `i64` of nanoseconds is a valid timestamp. -/
def orderExpiryFromUnixNanos (nanos : Int) : Except EngineError DateTime :=
  if nanos ≤ 0 then .error (.validation .orderExpiryInvalid) else .ok nanos

def validateOrderFreshness (expiresAtUnixNanos : Int) (now : DateTime) : Except EngineError DateTime := do
  let expiresAt ← orderExpiryFromUnixNanos expiresAtUnixNanos
  if expiresAt ≤ now then .error (.validation .orderExpired)
  else if now + maxTtlSeconds * 1000000000 < expiresAt then .error (.validation (.orderExpiryTooFar maxTtlSeconds))
  else .ok expiresAt

/-- The plaintext checks of `place_encrypted_order` that need no lock. Returns the
decrypted order and its canonical pair. -/
def checkPlaintext (env : Env) (ciphertext : Bytes) (caller : Address) :
    Except EngineError (DecryptedOrder × String) :=
  match env.decrypt ciphertext with
  | none => .error .decrypt
  | some d =>
    if d.trader ≠ caller then
      .error (.validation (.traderAddressMismatch (formatAddress caller) "***"))
    else if d.pair.isEmpty then .error (.validation .pairRequired)
    else do
      let pairKey ← mapErr .validation (Pair.parse d.pair)
      if d.price ≤ 0 then .error (.validation .priceMustBePositive)
      else if d.size ≤ 0 then .error (.validation .sizeMustBePositive)
      else if d.commitmentKey.isEmpty then .error (.validation .commitmentKeyRequired)
      else .ok (d, pairKey)

/-- `price % tick` is zero. -/
def onTick (price tick : Decimal) : Bool := (price / tick).den = 1

/-- The registry checks of `place_encrypted_order`, made under the state lock. Returns
the asset the leg spends and its decimals. -/
def checkPairConfig (state : EngineState) (d : DecryptedOrder) (pairKey : String) :
    Except EngineError (Address × UInt8) :=
  match state.pairConfig pairKey with
  | none => .error (.validation (.pairNotRegistered pairKey))
  | some cfg =>
    if cfg.status ≠ .active then .error (.validation (.pairNotAccepting pairKey))
    else if 0 < cfg.minOrderSize ∧ d.size < cfg.minOrderSize then
      .error (.validation (.orderSizeBelowMinimum pairKey cfg.minOrderSize))
    else if 0 < cfg.tickSize ∧ ¬ onTick d.price cfg.tickSize then
      .error (.validation (.orderPriceNotOnTick pairKey cfg.tickSize))
    else
      match d.side with
      | .buy => .ok (cfg.quoteToken, cfg.quoteDecimals)
      | .sell => .ok (cfg.baseToken, cfg.baseDecimals)

/-- The arguments `place_encrypted_order` hands to `persist_order_placed`. -/
structure Placement where
  order : Order
  secrets : OrderSecrets
  commitment : Bytes
  proof : Bytes
  ciphertext : Bytes
  replay : ReplayProtection

/-- Runs the installed verifier, if any, on the publics the engine derived itself. -/
def checkOrderProof (env : Env) (secrets : OrderSecrets) (proof : Bytes) : Except EngineError Unit :=
  match env.orderProofVerifier with
  | none => .ok ()
  | some verify => do
    let commitment ← mapErr (fun _ => EngineError.validation .invalidOrderProof)
      (bytes32ToScalar secrets.commitment.toVec)
    let nullifier ← mapErr (fun _ => EngineError.validation .invalidOrderProof)
      (bytes32ToScalar secrets.nullifier.toVec)
    if verify proof commitment nullifier then .ok () else .error (.validation .invalidOrderProof)

/-- The rest of `place_encrypted_order` after the registry checks: `balance` and
`position` are what the oracle answered. -/
def preparePlacement (env : Env) (d : DecryptedOrder) (pairKey : String) (ciphertext proof : Bytes) (id : Uuid)
    (now : DateTime) (balance : Decimal) (position : Int) : Except EngineError Placement := do
  let expiresAt ← validateOrderFreshness d.expiresAtUnixNanos now
  let order : Order :=
    { id := id, trader := d.trader, pair := pairKey, side := d.side, price := d.price, size := d.size,
      remainingSize := d.size, commitmentKey := d.commitmentKey, encryptedPayload := ciphertext,
      submittedAt := now, expiresAt := expiresAt, seq := 0 }
  let salt ← parseOrderSalt d.salt
  let nonce ← parseOrderNonce d.nonce
  let secrets ← deriveOrderSecrets env (addressBytes d.trader) d.side.code d.price d.size balance position salt
  checkOrderProof env secrets proof
  return ⟨order, secrets, secrets.commitment.toVec, proof, ciphertext,
    ⟨secrets.nullifier, orderNonceDigest env d.trader nonce⟩⟩

/-- What a placement built from a plaintext keeps of it. -/
structure Placement.From (env : Env) (p : Placement) (d : DecryptedOrder) : Prop where
  decrypts : env.decrypt p.ciphertext = some d
  pair : Pair.parse d.pair = .ok p.order.pair
  expiry : orderExpiryFromUnixNanos d.expiresAtUnixNanos = .ok p.order.expiresAt
  order : p.order =
    { p.order with
      trader := d.trader, side := d.side, price := d.price, size := d.size, remainingSize := d.size,
      commitmentKey := d.commitmentKey, encryptedPayload := p.ciphertext, seq := 0 }
  price_pos : 0 < d.price
  size_pos : 0 < d.size
  salt : parseOrderSalt d.salt = .ok p.secrets.salt
  nonce : ∃ nonce, parseOrderNonce d.nonce = .ok nonce ∧
    p.replay.orderNonceDigest = orderNonceDigest env d.trader nonce
  secrets : deriveOrderSecrets env (addressBytes d.trader) d.side.code d.price d.size p.secrets.balance
    p.secrets.position p.secrets.salt = .ok p.secrets
  commitment : p.commitment = p.secrets.commitment.toVec
  nullifier : p.replay.nullifier = p.secrets.nullifier
  time_pos : 0 < p.order.submittedAt

/-- A placement that came out of the checks of `place_encrypted_order`. -/
structure PreparedOrder (env : Env) extends Placement where
  plaintext : DecryptedOrder
  valid : toPlacement.From env plaintext

theorem checkPlaintext_ok {env : Env} {ciphertext : Bytes} {caller : Address} {d : DecryptedOrder} {key : String}
    (h : checkPlaintext env ciphertext caller = .ok (d, key)) :
    env.decrypt ciphertext = some d ∧ Pair.parse d.pair = .ok key ∧ 0 < d.price ∧ 0 < d.size := by
  unfold checkPlaintext at h
  split at h
  next => simp at h
  next d' hd =>
    simp only [guard_eq_ok, bind_eq_ok, mapErr_eq_ok] at h
    obtain ⟨-, -, key', hkey, hprice, hsize, -, h⟩ := h
    cases Except.ok.inj h
    exact ⟨hd, hkey, not_le.mp hprice, not_le.mp hsize⟩

theorem deriveOrderSecrets_inputs {env : Env} {addr : Bytes} {side : Nat} {price size balance : Decimal}
    {position : Int} {salt : Bytes32} {s : OrderSecrets}
    (h : deriveOrderSecrets env addr side price size balance position salt = .ok s) :
    s.salt = salt ∧ s.balance = balance ∧ s.position = position := by
  simp only [deriveOrderSecrets, bind_eq_ok, mapErr_eq_ok] at h
  obtain ⟨traderId, -, commitment, -, saltFr, -, h⟩ := h
  cases Except.ok.inj h
  exact ⟨rfl, rfl, rfl⟩

theorem validateOrderFreshness_ok {nanos : Int} {now expiresAt : DateTime}
    (h : validateOrderFreshness nanos now = .ok expiresAt) : orderExpiryFromUnixNanos nanos = .ok expiresAt := by
  simp only [validateOrderFreshness, bind_eq_ok, guard_eq_ok] at h
  obtain ⟨e, he, -, -, h⟩ := h
  cases Except.ok.inj h
  exact he

theorem from_preparePlacement {env : Env} {ciphertext proof : Bytes} {caller : Address} {d : DecryptedOrder}
    {key : String} {id : Uuid} {now : DateTime} {balance : Decimal} {position : Int} {p : Placement}
    (hplain : checkPlaintext env ciphertext caller = .ok (d, key)) (hnow : 0 < now)
    (h : preparePlacement env d key ciphertext proof id now balance position = .ok p) : p.From env d := by
  obtain ⟨hdecrypt, hkey, hprice, hsize⟩ := checkPlaintext_ok hplain
  simp only [preparePlacement, bind_eq_ok] at h
  obtain ⟨expiresAt, hexp, salt, hsalt, nonce, hnonce, secrets, hsecrets, -, -, h⟩ := h
  obtain ⟨rfl, rfl, rfl⟩ := deriveOrderSecrets_inputs hsecrets
  rw [← Except.ok.inj h]
  exact {
    decrypts := hdecrypt
    pair := hkey
    expiry := validateOrderFreshness_ok hexp
    order := rfl
    price_pos := hprice
    size_pos := hsize
    salt := hsalt
    nonce := ⟨nonce, hnonce, rfl⟩
    secrets := hsecrets
    commitment := by dsimp only
    nullifier := rfl
    time_pos := hnow }

/-- `place_encrypted_order` from the decryption up to the call of `persist_order_placed`; the
registry is read under the state lock. -/
def prepareOrder (env : Env) (state : EngineState) (ciphertext proof : Bytes) (caller : Address) (id : Uuid)
    (now : { t : DateTime // 0 < t }) (balance : Decimal) (position : Int) :
    Except EngineError (PreparedOrder env) :=
  match hplain : checkPlaintext env ciphertext caller with
  | .error e => .error e
  | .ok (d, key) =>
    match checkPairConfig state d key with
    | .error e => .error e
    | .ok _ =>
      match hp : preparePlacement env d key ciphertext proof id now balance position with
      | .error e => .error e
      | .ok p => .ok ⟨p, d, from_preparePlacement hplain now.2 hp⟩

section Prepared

variable {env : Env} {state : EngineState} {ciphertext proof : Bytes} {caller : Address} {id : Uuid}
  {now : { t : DateTime // 0 < t }} {balance : Decimal} {position : Int} {p : PreparedOrder env}

theorem prepareOrder_eq_ok (h : prepareOrder env state ciphertext proof caller id now balance position = .ok p) :
    ∃ key spend, checkPlaintext env ciphertext caller = .ok (p.plaintext, key) ∧
      checkPairConfig state p.plaintext key = .ok spend ∧
      preparePlacement env p.plaintext key ciphertext proof id now balance position = .ok p.toPlacement := by
  unfold prepareOrder at h
  split at h
  next => simp at h
  next d key hplain =>
    split at h
    next => simp at h
    next spend hspend =>
      split at h
      next => simp at h
      next q hq =>
        cases Except.ok.inj h
        exact ⟨key, spend, hplain, hspend, hq⟩

/-- What a placement takes over from its arguments. -/
theorem preparePlacement_eq_ok {d : DecryptedOrder} {key : String} {q : Placement}
    (h : preparePlacement env d key ciphertext proof id now balance position = .ok q) :
    q.order.id = id ∧ q.order.pair = key ∧ q.secrets.balance = balance ∧ q.secrets.position = position := by
  simp only [preparePlacement, bind_eq_ok] at h
  obtain ⟨expiresAt, -, salt, -, nonce, -, secrets, hsecrets, _, -, h⟩ := h
  obtain ⟨-, hbalance, hposition⟩ := deriveOrderSecrets_inputs hsecrets
  rw [← Except.ok.inj h]
  exact ⟨rfl, rfl, hbalance, hposition⟩

theorem prepareOrder_id (h : prepareOrder env state ciphertext proof caller id now balance position = .ok p) :
    p.order.id = id := by
  obtain ⟨key, spend, -, -, hplacement⟩ := prepareOrder_eq_ok h
  exact (preparePlacement_eq_ok hplacement).1

end Prepared

def ensureOrderCapacity (state : EngineState) (trader : Address) : Except EngineError Unit :=
  if maxActiveOrders ≤ state.book.activeOrderCount then
    .error (.validation (.orderBookCapacityExceeded maxActiveOrders))
  else if maxActiveOrdersPerTrader ≤ state.book.activeOrderCountForTrader trader then
    .error (.validation (.tooManyRestingOrdersForTrader maxActiveOrdersPerTrader))
  else .ok ()

end DarkPool
