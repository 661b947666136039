import DarkPool.Lib.Ledger
import DarkPool.State

namespace DarkPool

/-- What the contract takes from its deployment and from the contracts it calls. `domainId` is the
keccak key of an id in a namespace, and `modExp` the answer of the precompile to a base, an exponent
and a modulus. -/
structure Deployment where
  this : Address
  settlementDomain : Nat
  domainId : String → Bytes32 → Bytes32
  decimals : Address → UInt8
  hasCode : Address → Bool
  verifyProof : Bytes → Vector Nat 6 → Bool
  verifyIvcProof : Address → Bytes → Vector Nat 5 → Vector Nat 5 → Nat → Bool
  poseidon5 : Nat → Nat → Nat → Nat → Nat → Nat
  modExp : Nat → Nat → Nat → Option Nat

/-- `IDarkPool.Match`. -/
structure SolMatch where
  bidOrderId : Bytes32
  askOrderId : Bytes32
  bidTrader : Address
  askTrader : Address
  baseToken : Address
  quoteToken : Address
  price : Nat
  size : Nat
  deriving DecidableEq

/-- The storage of the contract. -/
structure Pool where
  owner : Address
  pendingOwner : Address
  paused : Bool
  operators : Address → Bool
  settledBatch : Bytes32 → Bool
  settledAuction : Bytes32 → Bool
  balances : Address → Address → Nat
  allowedTokens : Address → Bool
  reserved : Address → Address → Nat
  pendingUnreserve : Address → Address → Nat
  unreserveReadyAt : Address → Address → Nat
  ivcVerifier : Address
  sessionSubmitted : Bytes32 → Bool
  auctionToSession : Bytes32 → Bytes32
  sessionSettlementAcc : Bytes32 → Nat
  sessionSettled : Bytes32 → Bool
  ivcEnabled : Bool
  feeRecipient : Address
  minSize : Nat
  minPrice : Nat
  positionLimit : Nat
  operatorPubkey : Bytes
  operatorPubkeyEffectiveAt : Nat

/-- The reason of a revert; the text is empty for a failed arithmetic check. -/
abbrev Revert := String

def maxBatchSize : Nat := 256

def maxIvcSettleMatches : Nat := 32

def protocolFeeBps : Nat := 5

def bpsDenominator : Nat := 10000

def weiToCircuitScale : Nat := 10 ^ 10

def unreserveDelay : Nat := 3600

def require (cond : Prop) [Decidable cond] (reason : String) : Except Revert Unit :=
  if cond then .ok () else .error reason

/-- A `uint256` result of checked arithmetic. -/
def checked (n : Nat) : Except Revert Nat := if n < 2 ^ 256 then .ok n else .error ""

def checkedSub (x y : Nat) : Except Revert Nat := if y ≤ x then .ok (x - y) else .error ""

namespace Pool

def withBalance (p : Pool) (a t : Address) (n : Nat) : Pool := { p with balances := Ledger.put p.balances a t n }

def withReserved (p : Pool) (a t : Address) (n : Nat) : Pool := { p with reserved := Ledger.put p.reserved a t n }

def withPending (p : Pool) (a t : Address) (n : Nat) : Pool :=
  { p with pendingUnreserve := Ledger.put p.pendingUnreserve a t n }

def withReadyAt (p : Pool) (a t : Address) (n : Nat) : Pool :=
  { p with unreserveReadyAt := Ledger.put p.unreserveReadyAt a t n }

/-- `balances[a][t] += amount`. -/
def credit (p : Pool) (a t : Address) (amount : Nat) : Except Revert Pool := do
  let n ← checked (p.balances a t + amount)
  return p.withBalance a t n

/-- Free reserved funds go first, and a pending unbond shrinks by the rest. -/
def retirePending (p : Pool) (a t : Address) (r amount : Nat) : Except Revert Pool :=
  let pending := p.pendingUnreserve a t
  if pending = 0 then .ok p
  else
    let freeReserved := if pending < r then r - pending else 0
    if freeReserved < amount then do
      let newPending ← checkedSub pending (amount - freeReserved)
      let p := p.withPending a t newPending
      return if newPending = 0 then p.withReadyAt a t 0 else p
    else .ok p

def consumeReserved (p : Pool) (trader token : Address) (amount : Nat) : Except Revert Pool := do
  let r := p.reserved trader token
  let left ← checkedSub r amount
  (p.withReserved trader token left).retirePending trader token r amount

end Pool

section Settle

variable (d : Deployment)

/-- What a match moves: base to the bid, quote from it, and the fee in between. -/
structure Legs where
  baseAmount : Nat
  notional : Nat
  fee : Nat

def legs (m : SolMatch) : Except Revert Legs := do
  let basePow ← checked (10 ^ (d.decimals m.baseToken).toNat)
  let base ← checked (m.size * basePow)
  let quotePow ← checked (10 ^ (d.decimals m.quoteToken).toNat)
  let product ← checked (m.price * m.size)
  let quote ← checked (product / 10 ^ 18 * quotePow)
  let notional := quote / 10 ^ 18
  let fee ← checked (notional * protocolFeeBps)
  return ⟨base / 10 ^ 18, notional, fee / bpsDenominator⟩

def settleMatch (p : Pool) (m : SolMatch) : Except Revert Pool := do
  let l ← legs d m
  let askReceives ← checkedSub l.notional l.fee
  let p ← p.consumeReserved m.bidTrader m.quoteToken l.notional
  let p ← p.credit m.bidTrader m.baseToken l.baseAmount
  let p ← p.consumeReserved m.askTrader m.baseToken l.baseAmount
  let p ← p.credit m.askTrader m.quoteToken askReceives
  p.credit p.feeRecipient m.quoteToken l.fee

def settleMatches (p : Pool) (ms : List SolMatch) : Except Revert Pool := ms.foldlM (settleMatch d) p

/-- The chain over the matches in array order; a value finer than the circuit's grid is refused. -/
def settlementChain (acc : Nat) : List SolMatch → Except Revert Nat
  | [] => .ok acc
  | m :: ms => do
    require (m.price % weiToCircuitScale = 0 ∧ m.size % weiToCircuitScale = 0) "match precision"
    settlementChain (d.poseidon5 acc m.bidTrader.toNat m.askTrader.toNat (m.price / weiToCircuitScale)
      (m.size / weiToCircuitScale)) ms

/-- The calls of an operator take its address. -/
structure Session where
  sessionId : Bytes32
  proof : Bytes
  z0 : Vector Nat 5
  zN : Vector Nat 5
  nSteps : Nat
  policyHash : Nat

variable (p : Pool) (sender : Address)

def onlyOperator : Except Revert Unit := require (p.operators sender = true) "not operator"

def whenNotPaused : Except Revert Unit := require (p.paused = false) "EnforcedPause"

def whenIvcEnabled : Except Revert Unit := require (p.ivcEnabled = true) "ivc settlement disabled"

def onlyOwner : Except Revert Unit := require (sender = p.owner) "OwnableUnauthorizedAccount"

def Pool.markBatch (p : Pool) (batchKey auctionKey : Bytes32) : Pool :=
  { p with
    settledBatch := Function.update p.settledBatch batchKey true
    settledAuction := Function.update p.settledAuction auctionKey true }

def Pool.markAuction (p : Pool) (auctionKey sessionKey sessionId : Bytes32) : Pool :=
  { p with
    auctionToSession := Function.update p.auctionToSession auctionKey sessionId
    settledAuction := Function.update p.settledAuction auctionKey true
    sessionSettled := Function.update p.sessionSettled sessionKey true }

def Pool.markSession (p : Pool) (sessionKey : Bytes32) (acc : Nat) : Pool :=
  { p with
    sessionSubmitted := Function.update p.sessionSubmitted sessionKey true
    sessionSettlementAcc := Function.update p.sessionSettlementAcc sessionKey acc }

def submitBatch (batchId auctionId : Bytes32) (proof : Bytes) (publicInputs : Vector Nat 6) (ms : List SolMatch) :
    Except Revert Pool := do
  onlyOperator p sender
  whenNotPaused p
  let batchKey := d.domainId "batch" batchId
  let auctionKey := d.domainId "auction" auctionId
  require (p.settledBatch batchKey = false) "batch already settled"
  require (p.settledAuction auctionKey = false) "auction already settled"
  require (0 < ms.length ∧ ms.length ≤ maxBatchSize) "invalid batch size"
  require (proof.length = 256) "invalid proof length"
  require (publicInputs.get 0 = ms.length) "match count mismatch"
  require (publicInputs.get 3 = p.minSize) "minSize mismatch"
  require (publicInputs.get 4 = p.minPrice) "minPrice mismatch"
  require (publicInputs.get 5 = p.positionLimit) "positionLimit mismatch"
  require (d.verifyProof proof publicInputs = true) "invalid proof"
  settleMatches d (p.markBatch batchKey auctionKey) ms

def submitSession (s : Session) : Except Revert Pool := do
  onlyOperator p sender
  whenNotPaused p
  whenIvcEnabled p
  let sessionKey := d.domainId "session" s.sessionId
  require (p.sessionSubmitted sessionKey = false) "session already submitted"
  require (p.ivcVerifier ≠ 0) "ivc verifier not set"
  require (d.verifyIvcProof p.ivcVerifier s.proof s.z0 s.zN s.nSteps = true) "invalid ivc proof"
  require (s.z0.get zSettlement = d.settlementDomain) "z0 settlement domain"
  require (s.policyHash = s.zN.get zPolicy) "policy hash mismatch"
  return p.markSession sessionKey (s.zN.get zSettlement)

def settleAuction (sessionId auctionId : Bytes32) (ms : List SolMatch) : Except Revert Pool := do
  onlyOperator p sender
  whenNotPaused p
  whenIvcEnabled p
  let sessionKey := d.domainId "session" sessionId
  let auctionKey := d.domainId "auction" auctionId
  require (p.sessionSubmitted sessionKey = true) "session not submitted"
  require (p.settledAuction auctionKey = false) "auction already settled"
  require (p.sessionSettled sessionKey = false) "session already settled"
  let bound := p.auctionToSession auctionKey
  require (bound = 0 ∨ bound = sessionId) "auction bound to other session"
  require (0 < ms.length ∧ ms.length ≤ maxIvcSettleMatches) "invalid ivc batch size"
  let acc ← settlementChain d d.settlementDomain ms
  require (acc = p.sessionSettlementAcc sessionKey) "settlement binding"
  settleMatches d (p.markAuction auctionKey sessionKey sessionId) ms

end Settle

end DarkPool
