import DarkPool.FoldLoop

namespace DarkPool

/-- The plaintext tuple of a match as the proof and the contract hash it. -/
structure SettlementRow where
  bidAddr : Fr
  askAddr : Fr
  price : Fr
  size : Fr
  deriving DecidableEq

/-- The row of a settlement match, in the circuit's scale. -/
def settlementRow (m : SettlementMatch) : Except EncodingError SettlementRow := do
  let price ← decimalToScalar m.price
  let size ← decimalToScalar m.size
  return ⟨(m.bidTrader.toNat : Fr), (m.askTrader.toNat : Fr), price, size⟩

def CircuitMatchNative.settlementRow (r : CircuitMatchNative) : SettlementRow :=
  ⟨r.bid.traderAddr, r.ask.traderAddr, r.matchPrice, r.matchSize⟩

/-- The tuples of the active rows, in order. -/
def AuctionExternalInputs.settlementRows (ext : AuctionExternalInputs) : List SettlementRow :=
  (ext.rows.filter (fun r => r.isActive = 1)).map CircuitMatchNative.settlementRow

section Circuit

variable (env : Env)

def SettlementRow.chain (acc : Fr) (r : SettlementRow) : Fr :=
  env.poseidon [acc, r.bidAddr, r.askAddr, r.price, r.size]

/-- `settlement_chain` of the prover's side. -/
def settlementChainNative (acc0 : Fr) (rows : List SettlementRow) : Fr := rows.foldl (SettlementRow.chain env) acc0

/-- The running chain of the circuit, which a padding row passes through. -/
def settlementAcc (acc : Fr) (r : CircuitMatchNative) : Fr :=
  r.settlementRow.chain env acc * r.isActive + acc * (1 - r.isActive)

/-- What a round of the step circuit makes of the IVC state. The rest of the circuit constrains its inputs. -/
def stepCircuit (z : Vector Fr 5) (ext : AuctionExternalInputs) : Vector Fr 5 :=
  let leaves := ext.rows.flatMap (fun r => [leafOf env r.bid * r.isActive, leafOf env r.ask * r.isActive])
  let notionals := ext.rows.map (fun r => r.matchPrice * r.matchSize * r.isActive)
  let activeCount := (ext.rows.map CircuitMatchNative.isActive).sum
  #v[env.poseidon [z.get zJournal, env.poseidon leaves, env.poseidon notionals, activeCount],
    z.get zRound + 1,
    z.get zPolicy,
    ext.rows.foldl (settlementAcc env) (z.get zSettlement),
    env.poseidon [z.get zAdmitted, ext.admittedRoot]]

def computeZ0 (ext : AuctionExternalInputs) (settlementDomain : Fr) : Vector Fr 5 :=
  #v[0, 0, env.poseidon [ext.minSize, ext.minPrice, ext.positionLimit], settlementDomain, 0]

end Circuit

/-- The accumulator of one pair: the state it started from, the state after the folds so far, and their number. -/
structure IvcRoundState where
  z0 : Vector Fr 5
  z : Vector Fr 5
  nSteps : Nat
  deriving DecidableEq

def initAccumulator (z0 : Vector Fr 5) : IvcRoundState := ⟨z0, z0, 0⟩

def IvcRoundState.fold (env : Env) (acc : IvcRoundState) (ext : AuctionExternalInputs) : IvcRoundState :=
  { acc with z := stepCircuit env acc.z ext, nSteps := acc.nSteps + 1 }

def compressAndFinalize (acc : IvcRoundState) (proofBytes : Bytes) : FinalProof where
  proofBytes := proofBytes
  z0 := acc.z0
  zN := acc.z
  nSteps := acc.nSteps
  policyHash := acc.z.get zPolicy

/-- The accumulators of `InlineFoldingAggregator`, by pair. -/
abbrev InlineFoldingAggregator := Table String IvcRoundState

/-- How a call of `fold_step` ends. It can fail before and after the accumulator of a new pair is in place. -/
inductive FoldOutcome
  | folded
  | seeded
  | refused

def FoldOutcome.ok : FoldOutcome → Bool
  | .folded => true
  | .seeded | .refused => false

namespace InlineFoldingAggregator

variable (agg : InlineFoldingAggregator) (pair : String)

def entry (env : Env) (settlementDomain : Fr) (ext : AuctionExternalInputs) : IvcRoundState :=
  (agg.lookup pair).getD (initAccumulator (computeZ0 env ext settlementDomain))

def foldStep (env : Env) (settlementDomain : Fr) (ext : AuctionExternalInputs) (outcome : FoldOutcome) :
    InlineFoldingAggregator :=
  let acc := agg.entry pair env settlementDomain ext
  match outcome with
  | .folded => agg.insert pair (acc.fold env ext)
  | .seeded => agg.insert pair acc
  | .refused => agg

/-- `finalize` reads the accumulator and leaves it in place. -/
def finalize (proofBytes : Bytes) : Option FinalProof :=
  (agg.lookup pair).map (fun acc => compressAndFinalize acc proofBytes)

end InlineFoldingAggregator

/-- An engine with the aggregator its fold loops call. -/
structure Proving (env : Env) where
  world : World env
  aggregator : InlineFoldingAggregator

/-- A section of the engine, or one of its two calls of the aggregator. -/
inductive ProvingAction
  | engine (a : Action)
  | foldStep (i : Nat) (outcome : FoldOutcome)
  | finalize (i : Nat) (proofBytes : Option Bytes)

/-- The section that waits for the aggregator. -/
def Action.callsAggregator : Action → Bool
  | .foldStep _ _ | .foldFinalize _ _ => true
  | _ => false

namespace Proving

variable {env : Env}

def initial (env : Env) : Proving env := ⟨World.initial env, ∅⟩

/-- The section of the engine, with what the aggregator gives back to it. -/
def engineAction (s : Proving env) : ProvingAction → Option Action
  | .engine a => if a.callsAggregator then none else some a
  | .foldStep i outcome => some (.foldStep i outcome.ok)
  | .finalize i proofBytes =>
    match s.world.tasks[i]? with
    | some (.folding (p :: _) .finalizing _) =>
      some (.foldFinalize i (proofBytes.bind (s.aggregator.finalize p.pair)))
    | _ => none

def aggregate (settlementDomain : Fr) (s : Proving env) : ProvingAction → InlineFoldingAggregator
  | .foldStep i outcome =>
    match s.world.tasks[i]? with
    | some (.folding (p :: _) (.encoded ext) _) => s.aggregator.foldStep p.pair env settlementDomain ext outcome
    | _ => s.aggregator
  | _ => s.aggregator

def step (settlementDomain : Fr) (s : Proving env) (m : ProvingAction) : Option (Proving env) :=
  match s.engineAction m with
  | none => none
  | some a => (s.world.step a).map (fun w => ⟨w, s.aggregate settlementDomain m⟩)

end Proving

end DarkPool
