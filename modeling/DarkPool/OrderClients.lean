import DarkPool.OrderPayload

namespace DarkPool

/-- `str::as_bytes`. -/
def utf8Bytes (s : String) : Bytes := s.toList.flatMap String.utf8EncodeChar

structure OrderPayload where
  trader : String
  pair : String
  side : Side
  price : Decimal
  size : Decimal
  commitmentKey : String
  salt : String
  nonce : String
  expiresAtUnixNanos : Int
  ttl : Int

structure WitnessInput where
  traderAddr : String
  side : Nat
  price : String
  size : String
  saltHex : String

structure CommitmentPreimageCircuit where
  traderId : Fr
  traderAddr : Fr
  side : Fr
  limitPrice : Fr
  size : Fr
  salt : Fr

/-- The constraints on the witness; the two public inputs are computed from it. -/
structure CommitmentPreimageCircuit.Satisfied (env : Env) (c : CommitmentPreimageCircuit) : Prop where
  side : c.side * (1 - c.side) = 0
  limitPrice : c.limitPrice.val < 2 ^ 60
  size : c.size.val < 2 ^ 60
  identity : env.poseidon [c.traderAddr] = c.traderId

/-- The libraries that the clients are built on. A proving key is what it proves with. -/
structure ClientLibs where
  decimalFromStr : String → Option Decimal
  encrypt : Bytes → OrderPayload → Option Bytes
  readWitness : String → Option WitnessInput
  deserializePk : Bytes → Option (CommitmentPreimageCircuit → Option Bytes)

inductive ClientError
  | encryption
  | encoding (e : EncodingError)
  | invalidKey (length : Nat)
  | invalidPayload (message : String)
  | hex

/-- The errors that cross the boundary of the browser as a text. -/
inductive JsError
  | client (e : ClientError)
  | decimal
  | hex
  | message (text : String)

inductive ProveError
  | json
  | hex (field : String)
  | length (field : String) (actual : Nat)
  | encoding (field : String) (e : EncodingError)
  | side (actual : Nat)
  | decimal (field : String)
  | deserializePk
  | prove

structure OrderSubmission where
  commitment : Bytes
  proof : Bytes
  encryptedPayload : Bytes
  traderId : Bytes
  salt : Bytes

structure ProveResult where
  proof : Bytes
  commitment : Bytes

/-- The value, or the error where there is none. -/
def orError {α ε : Type} (x : Option α) (e : ε) : Except ε α :=
  match x with
  | some a => .ok a
  | none => .error e

@[simp] theorem orError_eq_ok {α ε : Type} {x : Option α} {e : ε} {a : α} : orError x e = .ok a ↔ x = some a := by
  cases x with
  | none => simp [orError]
  | some b => simp [orError]

namespace Client

def scalarToBeBytes (f : Fr) : Bytes := Radix.toBytes 32 f.val

def decimalToScalar (d : Decimal) : Except ClientError Fr := mapErr .encoding (DarkPool.decimalToScalar d)

def bytesToScalar (b : Bytes) : Except ClientError Fr := mapErr .encoding (DarkPool.bytesToScalar b)

def bytes32ToScalar (b : Bytes) : Except ClientError Fr := mapErr .encoding (DarkPool.bytes32ToScalar b)

def deriveTraderId (env : Env) (commitmentKeyBytes : Bytes) : Except ClientError Fr := do
  let scalar ← bytesToScalar commitmentKeyBytes
  return env.poseidon [scalar]

def sideScalar (side : Nat) : Except ClientError Fr :=
  match side with
  | 0 => .ok 0
  | 1 => .ok 1
  | other => .error (.invalidPayload ("side must be 0 or 1, got " ++ toString other))

def fromDecimals (traderId : Fr) (side : Nat) (limitPrice size : Decimal) (salt : Fr) :
    Except ClientError OrderCommitmentInput := do
  let side ← sideScalar side
  let price ← decimalToScalar limitPrice
  let size ← decimalToScalar size
  return ⟨traderId, side, price, size, salt⟩

def validateTrader (trader : String) : Except ClientError Unit :=
  if isAddressText trader then .ok () else .error (.invalidPayload "trader must be a 0x-prefixed 20-byte address")

def parseTraderAddress (trader : String) : Except ClientError Bytes := do
  validateTrader trader
  let bytes ← orError (hexDecode (trader.toList.drop 2)) .hex
  if bytes.length = 20 then .ok bytes else .error (.invalidPayload "trader must be a 0x-prefixed 20-byte address")

def parseLowercaseHex32 (hexValue name : String) : Except ClientError Bytes := do
  if hexValue.toList.length ≠ 64 ∨ ¬ hexValue.toList.all isLowercaseHexDigit then
    .error (.invalidPayload (name ++ " must be a 32-byte lowercase hex string"))
  else
    let bytes ← orError (hexDecode hexValue.toList) .hex
    if bytes.length = 32 then .ok bytes
    else .error (.invalidPayload (name ++ " must be a 32-byte lowercase hex string"))

def parsePayloadSalt (saltHex : String) : Except ClientError Bytes := parseLowercaseHex32 saltHex "salt"

def parsePayloadNonce (nonceHex : String) : Except ClientError Bytes := parseLowercaseHex32 nonceHex "nonce"

def encryptOrder (libs : ClientLibs) (operatorPubkey : Bytes) (payload : OrderPayload) : Except ClientError Bytes :=
  if operatorPubkey.length ≠ 33 ∧ operatorPubkey.length ≠ 65 then .error (.invalidKey operatorPubkey.length)
  else orError (libs.encrypt operatorPubkey payload) .encryption

def placeholderProof : Bytes := asciiBytes "dp-client-v0"

def prepareOrder (env : Env) (libs : ClientLibs) (operatorPubkey : Bytes) (payload : OrderPayload) :
    Except ClientError OrderSubmission :=
  if (trim payload.commitmentKey.toList).isEmpty then .error (.invalidPayload "commitment_key must be non-empty")
  else do
    validateTrader payload.trader
    let traderAddr ← parseTraderAddress payload.trader
    let traderId ← deriveTraderId env traderAddr
    let salt ← parsePayloadSalt payload.salt
    let _ ← parsePayloadNonce payload.nonce
    if payload.expiresAtUnixNanos ≤ 0 then
      .error (.invalidPayload "expires_at_unix_nanos must be a positive Unix nanosecond timestamp")
    else
      let saltFr ← bytes32ToScalar salt
      let input ← fromDecimals traderId payload.side.code payload.price payload.size saltFr
      let commitment := scalarToBeBytes (commitNative env input)
      let encryptedPayload ← encryptOrder libs operatorPubkey payload
      return ⟨commitment, placeholderProof, encryptedPayload, scalarToBeBytes traderId, salt⟩

end Client

/-- The trader id is derived from the bytes of the key. -/
def computeCommitmentWasm (env : Env) (libs : ClientLibs) (commitmentKey : String) (side : Nat)
    (price size saltHex : String) : Except JsError String := do
  let traderId ← mapErr .client (Client.deriveTraderId env (utf8Bytes commitmentKey))
  let price ← orError (libs.decimalFromStr price) .decimal
  let size ← orError (libs.decimalFromStr size) .decimal
  if saltHex.toList.length ≠ 64 ∨ ¬ saltHex.toList.all isLowercaseHexDigit then
    .error (.message "salt must be a 32-byte lowercase hex string")
  else
    let saltBytes ← orError (hexDecode saltHex.toList) .hex
    if saltBytes.length ≠ 32 then
      .error (.message ("salt must be exactly 32 bytes, got " ++ toString saltBytes.length))
    else
      let saltFr ← mapErr .client (Client.bytes32ToScalar saltBytes)
      let input ← mapErr .client (Client.fromDecimals traderId side price size saltFr)
      return hexEncode (Client.scalarToBeBytes (commitNative env input))

namespace ZkWasm

/-- `serialize_with_mode(Compress::Yes)`: the canonical integer, least significant byte first. -/
def serializeScalar (f : Fr) : Bytes := (Radix.toBytes 32 f.val).reverse

def decodeHexField (name value : String) : Except ProveError Bytes :=
  let trimmed := match value.toList with
    | '0' :: 'x' :: cs => cs
    | '0' :: 'X' :: cs => cs
    | cs => cs
  orError (hexDecode trimmed) (.hex name)

/-- The key is read after the witness is checked. -/
def proveOrder (env : Env) (libs : ClientLibs) (witnessJson : String) (pkBytes : Bytes) :
    Except ProveError ProveResult := do
  let w ← orError (libs.readWitness witnessJson) .json
  let traderAddrBytes ← decodeHexField "trader_addr" w.traderAddr
  if traderAddrBytes.length ≠ 20 then .error (.length "trader_addr" traderAddrBytes.length)
  else
    let traderAddr ← mapErr (.encoding "trader_addr") (bytesToScalar traderAddrBytes)
    let traderId ← mapErr (.encoding "derive_trader_id") (deriveTraderId env traderAddrBytes)
    if 1 < w.side then .error (.side w.side)
    else
      let price ← orError (libs.decimalFromStr w.price) (.decimal "price")
      let size ← orError (libs.decimalFromStr w.size) (.decimal "size")
      let priceFr ← mapErr (.encoding "price") (decimalToScalar price)
      let sizeFr ← mapErr (.encoding "size") (decimalToScalar size)
      let saltBytes ← decodeHexField "salt_hex" w.saltHex
      if saltBytes.length ≠ 32 then .error (.length "salt_hex" saltBytes.length)
      else
        let salt ← mapErr (.encoding "salt_hex") (bytes32ToScalar saltBytes)
        let circuit : CommitmentPreimageCircuit := ⟨traderId, traderAddr, (w.side : Fr), priceFr, sizeFr, salt⟩
        let prove ← orError (libs.deserializePk pkBytes) .deserializePk
        let proof ← orError (prove circuit) .prove
        return ⟨proof, serializeScalar (commitNative env ⟨traderId, (w.side : Fr), priceFr, sizeFr, salt⟩)⟩

end ZkWasm

end DarkPool
