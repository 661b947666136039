import DarkPool.Pubkey

namespace DarkPool

/-- The contract together with the balances its tokens keep, by token and then by account. -/
structure Chain where
  pool : Pool
  tokens : Address → Address → Nat

/-- A call of the contract, or a transfer between other accounts of a token. `approved` says whether
the allowance of a deposit suffices. -/
inductive Call
  | deposit (token : Address) (amount : Nat) (approved : Bool)
  | withdraw (token : Address) (amount : Nat)
  | reserve (token : Address) (amount : Nat)
  | requestUnreserve (token : Address) (amount : Nat)
  | releaseUnreserve (token : Address)
  | submitBatch (batchId auctionId : Bytes32) (proof : Bytes) (publicInputs : Vector Nat 6) (ms : List SolMatch)
  | submitSession (s : Session)
  | settleAuction (sessionId auctionId : Bytes32) (ms : List SolMatch)
  | addOperator (op : Address)
  | removeOperator (op : Address)
  | setPolicy (minSize minPrice positionLimit : Nat)
  | setFeeRecipient (recipient : Address)
  | setIvcVerifier (verifier : Address)
  | setIvcEnabled (enabled : Bool)
  | setTokenAllowed (token : Address) (allowed : Bool)
  | setOperatorPubkey (pubkey : Bytes) (effectiveAt : Nat)
  | pause
  | unpause
  | transferOwnership (newOwner : Address)
  | acceptOwnership
  | renounceOwnership
  | tokenTransfer (token recipient : Address) (amount : Nat)

/-- `transfer` of a standard token. -/
def transferToken (tokens : Address → Address → Nat) (token sender recipient : Address) (amount : Nat) :
    Except Revert (Address → Address → Nat) := do
  let left ← checkedSub (tokens token sender) amount
  let debited := Ledger.put tokens token sender left
  let n ← checked (debited token recipient + amount)
  return Ledger.put debited token recipient n

namespace Pool

/-- The storage a deployment starts from. -/
def initial (owner feeRecipient : Address) (pubkey : Bytes) (now : Nat) : Pool where
  owner := owner
  pendingOwner := 0
  paused := false
  operators := fun _ => false
  settledBatch := fun _ => false
  settledAuction := fun _ => false
  balances := fun _ _ => 0
  allowedTokens := fun _ => false
  reserved := fun _ _ => 0
  pendingUnreserve := fun _ _ => 0
  unreserveReadyAt := fun _ _ => 0
  ivcVerifier := 0
  sessionSubmitted := fun _ => false
  auctionToSession := fun _ => 0
  sessionSettlementAcc := fun _ => 0
  sessionSettled := fun _ => false
  ivcEnabled := false
  feeRecipient := feeRecipient
  minSize := 0
  minPrice := 0
  positionLimit := 0
  operatorPubkey := pubkey
  operatorPubkeyEffectiveAt := now

variable (p : Pool) (sender : Address)

def reserve (token : Address) (amount : Nat) : Except Revert Pool := do
  whenNotPaused p
  require (0 < amount) "zero amount"
  require (amount ≤ p.balances sender token) "insufficient balance"
  let free ← checkedSub (p.balances sender token) amount
  let locked ← checked (p.reserved sender token + amount)
  return (p.withBalance sender token free).withReserved sender token locked

def requestUnreserve (now : Nat) (token : Address) (amount : Nat) : Except Revert Pool := do
  whenNotPaused p
  require (0 < amount) "zero amount"
  let r := p.reserved sender token
  let pending := p.pendingUnreserve sender token
  let available := if pending < r then r - pending else 0
  require (amount ≤ available) "exceeds reserved"
  let newPending ← checked (pending + amount)
  let readyAt ← checked (now + unreserveDelay)
  return (p.withPending sender token newPending).withReadyAt sender token readyAt

def releaseUnreserve (now : Nat) (token : Address) : Except Revert Pool := do
  whenNotPaused p
  let pending := p.pendingUnreserve sender token
  require (0 < pending) "nothing pending"
  require (p.unreserveReadyAt sender token ≤ now) "unreserve not ready"
  let r := p.reserved sender token
  let amount := if pending ≤ r then pending else r
  let left ← checkedSub r amount
  let p ← (p.withReserved sender token left).credit sender token amount
  return (p.withPending sender token 0).withReadyAt sender token 0

end Pool

section Admin

variable (d : Deployment) (p : Pool) (sender : Address)

/-- The owner's calls, and those of `Ownable2Step`. -/
def adminCall : Call → Except Revert Pool
  | .addOperator op => do
    onlyOwner p sender
    require (op ≠ 0) "zero address"
    return { p with operators := Function.update p.operators op true }
  | .removeOperator op => do
    onlyOwner p sender
    return { p with operators := Function.update p.operators op false }
  | .setPolicy minSize minPrice positionLimit => do
    onlyOwner p sender
    return { p with minSize := minSize, minPrice := minPrice, positionLimit := positionLimit }
  | .setFeeRecipient recipient => do
    onlyOwner p sender
    require (recipient ≠ 0) "zero address"
    return { p with feeRecipient := recipient }
  | .setIvcVerifier verifier => do
    onlyOwner p sender
    require (verifier ≠ 0) "zero ivc verifier"
    require (d.hasCode verifier = true) "ivc verifier has no code"
    return { p with ivcVerifier := verifier }
  | .setIvcEnabled enabled => do
    onlyOwner p sender
    return { p with ivcEnabled := enabled }
  | .setTokenAllowed token allowed => do
    onlyOwner p sender
    require (token ≠ 0) "zero token"
    return { p with allowedTokens := Function.update p.allowedTokens token allowed }
  | .setOperatorPubkey pubkey effectiveAt => do
    onlyOwner p sender
    require (pubkey.length = 33 ∨ pubkey.length = 65) "bad pubkey len"
    require (validSec1Tag pubkey = true) "bad pubkey tag"
    require (validSec1Point d pubkey = true) "bad pubkey point"
    return { p with operatorPubkey := pubkey, operatorPubkeyEffectiveAt := effectiveAt }
  | .pause => do
    onlyOwner p sender
    whenNotPaused p
    return { p with paused := true }
  | .unpause => do
    onlyOwner p sender
    require (p.paused = true) "ExpectedPause"
    return { p with paused := false }
  | .transferOwnership newOwner => do
    onlyOwner p sender
    return { p with pendingOwner := newOwner }
  | .acceptOwnership => do
    require (p.pendingOwner = sender) "OwnableUnauthorizedAccount"
    return { p with owner := sender, pendingOwner := 0 }
  | .renounceOwnership => do
    onlyOwner p sender
    return { p with owner := 0, pendingOwner := 0 }
  | _ => .error ""

end Admin

namespace Chain

variable (d : Deployment) (c : Chain) (sender : Address)

def withPool (c : Chain) (p : Pool) : Chain := { c with pool := p }

/-- The contract credits what its token balance grew by. -/
def deposit (token : Address) (amount : Nat) (approved : Bool) : Except Revert Chain := do
  whenNotPaused c.pool
  require (0 < amount) "zero amount"
  require (c.pool.allowedTokens token = true) "token not allowed"
  require (approved = true) "ERC20InsufficientAllowance"
  let tokens ← transferToken c.tokens token sender d.this amount
  let received ← checkedSub (tokens token d.this) (c.tokens token d.this)
  require (0 < received) "no tokens received"
  let pool ← c.pool.credit sender token received
  return ⟨pool, tokens⟩

def withdraw (token : Address) (amount : Nat) : Except Revert Chain := do
  whenNotPaused c.pool
  require (0 < amount) "zero amount"
  require (amount ≤ c.pool.balances sender token) "insufficient balance"
  let free ← checkedSub (c.pool.balances sender token) amount
  let tokens ← transferToken c.tokens token d.this sender amount
  return ⟨c.pool.withBalance sender token free, tokens⟩

/-- A transaction from `sender` at time `now`. Nobody but the contract spends what it holds. -/
def exec (now : Nat) (call : Call) : Except Revert Chain :=
  match call with
  | .deposit token amount approved => c.deposit d sender token amount approved
  | .withdraw token amount => c.withdraw d sender token amount
  | .reserve token amount => c.withPool <$> c.pool.reserve sender token amount
  | .requestUnreserve token amount => c.withPool <$> c.pool.requestUnreserve sender now token amount
  | .releaseUnreserve token => c.withPool <$> c.pool.releaseUnreserve sender now token
  | .submitBatch batchId auctionId proof publicInputs ms =>
    c.withPool <$> submitBatch d c.pool sender batchId auctionId proof publicInputs ms
  | .submitSession s => c.withPool <$> submitSession d c.pool sender s
  | .settleAuction sessionId auctionId ms => c.withPool <$> settleAuction d c.pool sender sessionId auctionId ms
  | .tokenTransfer token recipient amount => do
    require (sender ≠ d.this) ""
    let tokens ← transferToken c.tokens token sender recipient amount
    return { c with tokens := tokens }
  | call => c.withPool <$> adminCall d c.pool sender call

end Chain

/-- A transaction that reverts changes nothing. -/
def Chain.step (d : Deployment) (c : Chain) (tx : Address × Nat × Call) : Chain :=
  match c.exec d tx.1 tx.2.1 tx.2.2 with
  | .ok c' => c'
  | .error _ => c

def Chain.run (d : Deployment) (c : Chain) (txs : List (Address × Nat × Call)) : Chain := txs.foldl (Chain.step d) c

end DarkPool
