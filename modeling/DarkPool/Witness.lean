import DarkPool.Merkle

namespace DarkPool

structure OrderLegWitness where
  traderId : String
  salt : String
  balance : Decimal
  position : String
  limitPrice : Decimal
  orderSize : Decimal
  side : Nat
  traderAddr : String
  deriving DecidableEq

structure MatchWitness where
  bid : OrderLegWitness
  ask : OrderLegWitness
  deriving DecidableEq

structure Policy where
  minSize : Decimal
  minPrice : Decimal
  positionLimit : String
  deriving DecidableEq

/-- `to_string` of an `i128`, which has at most 39 digits. -/
def formatInt (x : Int) : String := String.ofList (Radix.toSigned 39 x)

def parseInt (s : String) : Option Int := Radix.ofSigned s.toList

def defaultPolicy : Policy := ⟨1 / 10 ^ 8, 1 / 10 ^ 8, formatInt (2 ^ 58)⟩

structure BatchWitness where
  batchId : Uuid
  auctionId : Uuid
  matchList : List MatchWitness
  policy : Policy
  deriving DecidableEq

def BatchWitness.empty (batchId auctionId : Uuid) : BatchWitness := ⟨batchId, auctionId, [], defaultPolicy⟩

def legWitnessFrom (secret : OrderSecrets) (order : Order) (side : Nat) : OrderLegWitness where
  traderId := hexEncode secret.traderId.toVec
  salt := hexEncode secret.salt.toVec
  balance := secret.balance
  position := formatInt secret.position
  limitPrice := order.price
  orderSize := order.size
  side := side
  traderAddr := hexEncode (addressBytes order.trader)

def secretFor (secrets : Table Uuid OrderSecrets) (id : Uuid) : Except EngineError OrderSecrets :=
  match secrets.lookup id with
  | some s => .ok s
  | none => .error (.witnessSecretMissing id)

def orderFor (orders : Table Uuid Order) (id : Uuid) : Except EngineError Order :=
  match orders.lookup id with
  | some o => .ok o
  | none => .error (.witnessOrderMissing id)

def buildMatchWitness (secrets : Table Uuid OrderSecrets) (orders : Table Uuid Order) (m : Match) :
    Except EngineError MatchWitness := do
  let bidSecret ← secretFor secrets m.bid.orderId
  let askSecret ← secretFor secrets m.ask.orderId
  let bidOrder ← orderFor orders m.bid.orderId
  let askOrder ← orderFor orders m.ask.orderId
  return ⟨legWitnessFrom bidSecret bidOrder 0, legWitnessFrom askSecret askOrder 1⟩

def buildBatchWitness (secrets : Table Uuid OrderSecrets) (batchId auctionId : Uuid) (matchList : List Match)
    (orders : Table Uuid Order) : Except EngineError BatchWitness := do
  let legs ← matchList.mapM (buildMatchWitness secrets orders)
  return ⟨batchId, auctionId, legs, defaultPolicy⟩

/-- The commitments of the listed orders whose secret is still held. Engine-derived
commitments are canonical, so the source's `expect` does not fire. -/
def admittedCommitments (secrets : Table Uuid OrderSecrets) (orderIds : List Uuid) : List Fr :=
  (orderIds.filterMap secrets.lookup).map (fun s => (s.commitment.toNat : Fr))

def ivcBatchSize : Nat := 8

/-- The scalar fields of one leg; the source has them twice in a row, as `bid_*` and `ask_*`. -/
structure CircuitLeg where
  trader : Fr
  salt : Fr
  limitPrice : Fr
  side : Fr
  balance : Fr
  position : Fr
  traderAddr : Fr
  orderSize : Fr
  deriving DecidableEq

structure CircuitMatchNative where
  bid : CircuitLeg
  ask : CircuitLeg
  matchPrice : Fr
  matchSize : Fr
  isActive : Fr
  bidPath : MerkleProof
  askPath : MerkleProof
  deriving DecidableEq

/-- A padding row: all zero but the ask's side bit. -/
def CircuitMatchNative.default : CircuitMatchNative where
  bid := ⟨0, 0, 0, 0, 0, 0, 0, 0⟩
  ask := ⟨0, 0, 0, 1, 0, 0, 0, 0⟩
  matchPrice := 0
  matchSize := 0
  isActive := 0
  bidPath := MerkleProof.default
  askPath := MerkleProof.default

structure AuctionExternalInputs where
  minSize : Fr
  minPrice : Fr
  positionLimit : Fr
  clearingPrice : Fr
  admittedRoot : Fr
  rows : List CircuitMatchNative
  deriving DecidableEq

/-- The bytes of the admitted-set root, as `BatchFolded` publishes them. -/
def AuctionExternalInputs.inputRoot (ext : AuctionExternalInputs) : Bytes := (frToBytes32 ext.admittedRoot).toVec

/-- `trim_start_matches("0x")`. -/
def trimStart0x : List Char → List Char
  | '0' :: 'x' :: cs => trimStart0x cs
  | cs => cs

def hexField (s : String) : Option Bytes := hexDecode (trimStart0x s.toList)

/-- A hex field of a leg that must hold a canonical 32-byte field element. -/
def fieldElement (field value : String) : Except ZkError Fr :=
  match hexField value with
  | none => .error (.leg field)
  | some bytes => mapErr (fun _ => ZkError.leg field) (bytes32ToScalar bytes)

def traderAddrScalar (field value : String) : Except ZkError Fr :=
  match hexField value with
  | none => .error (.leg field)
  | some bytes => mapErr (fun _ => ZkError.leg field) (bytesToScalar bytes)

def positionScalar (position : String) : Except EncodingError Fr :=
  match parseInt position with
  | none => .error (.overflow 0)
  | some p => signedToScalar p

/-- The fields of a leg read after both legs' trader ids and salts. -/
def legRow (addrField : String) (leg : OrderLegWitness) (trader salt : Fr) : Except ZkError CircuitLeg := do
  let limitPrice ← mapErr .encoding (decimalToScalar leg.limitPrice)
  let balance ← mapErr .encoding (decimalToScalar leg.balance)
  let position ← mapErr .encoding (positionScalar leg.position)
  let traderAddr ← traderAddrScalar addrField leg.traderAddr
  let orderSize ← mapErr .encoding (decimalToScalar leg.orderSize)
  return ⟨trader, salt, limitPrice, (leg.side : Fr), balance, position, traderAddr, orderSize⟩

def matchRow (m : MatchWitness) (price size : Decimal) : Except ZkError CircuitMatchNative := do
  let bidTrader ← fieldElement "bid trader_id" m.bid.traderId
  let bidSalt ← fieldElement "bid salt" m.bid.salt
  let askTrader ← fieldElement "ask trader_id" m.ask.traderId
  let askSalt ← fieldElement "ask salt" m.ask.salt
  let bid ← legRow "bid trader_addr" m.bid bidTrader bidSalt
  let ask ← legRow "ask trader_addr" m.ask askTrader askSalt
  let matchPrice ← mapErr .encoding (decimalToScalar price)
  let matchSize ← mapErr .encoding (decimalToScalar size)
  return ⟨bid, ask, matchPrice, matchSize, 1, MerkleProof.default, MerkleProof.default⟩

def buildRows (witness : BatchWitness) (matchPrices matchSizes : List Decimal) (batchSize : Nat) :
    Except ZkError AuctionExternalInputs :=
  if ivcBatchSize < batchSize then
    .error (.witness ("batch_size " ++ toString batchSize ++ " exceeds circuit width IVC_BATCH_SIZE " ++
      toString ivcBatchSize))
  else if batchSize < witness.matchList.length then
    .error (.witness (toString witness.matchList.length ++ " matches > circuit batch_size " ++ toString batchSize))
  else if witness.matchList.length ≠ matchPrices.length ∨ matchPrices.length ≠ matchSizes.length then
    .error (.witness "match_prices/match_sizes length mismatch")
  else do
    let minSize ← mapErr .encoding (decimalToScalar witness.policy.minSize)
    let minPrice ← mapErr .encoding (decimalToScalar witness.policy.minPrice)
    let positionLimit ←
      match parseInt witness.policy.positionLimit with
      | none => .error (.witness "policy.position_limit invalid")
      | some limit => mapErr .encoding (signedToScalar limit)
    let rows ← (witness.matchList.zip (matchPrices.zip matchSizes)).mapM (fun r => matchRow r.1 r.2.1 r.2.2)
    let clearingPrice ←
      match matchPrices with
      | [] => .ok 0
      | p :: _ => mapErr .encoding (decimalToScalar p)
    return ⟨minSize, minPrice, positionLimit, clearingPrice, 0,
      rows ++ List.replicate (batchSize - rows.length) CircuitMatchNative.default⟩

section Membership

variable (env : Env)

/-- The commitment of a leg, recomputed from the scalar fields of its row. -/
def leafOf (leg : CircuitLeg) : Fr :=
  commitNative env ⟨leg.trader, leg.side, leg.limitPrice, leg.orderSize, leg.salt⟩

def memberPath (admitted : List Fr) (leaf : Fr) (missing : String) : Except ZkError MerkleProof := do
  match ← admittedSetProof env admitted leaf with
  | none => .error (.witness missing)
  | some (_, path) => .ok path

def attachRow (admitted : List Fr) (row : CircuitMatchNative) : Except ZkError CircuitMatchNative :=
  if row.isActive ≠ 1 then .ok row
  else do
    let bidPath ← memberPath env admitted (leafOf env row.bid) "matched bid leg absent from admitted set"
    let askPath ← memberPath env admitted (leafOf env row.ask) "matched ask leg absent from admitted set"
    return { row with bidPath := bidPath, askPath := askPath }

def attachMembership (ext : AuctionExternalInputs) (admitted : List Fr) : Except ZkError AuctionExternalInputs := do
  let root ← admittedSetRoot env admitted
  let rows ← ext.rows.mapM (attachRow env admitted)
  return { ext with admittedRoot := root, rows := rows }

def fromWitnessWithAdmitted (witness : BatchWitness) (matchPrices matchSizes : List Decimal) (batchSize : Nat)
    (admitted : List Fr) : Except ZkError AuctionExternalInputs := do
  let ext ← buildRows witness matchPrices matchSizes batchSize
  attachMembership env ext admitted

end Membership

end DarkPool
