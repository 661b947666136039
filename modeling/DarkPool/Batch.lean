import DarkPool.Tick

namespace DarkPool

def resolveError : SettlementResolveErr → EngineError
  | .orderMissing orderId => .witnessOrderMissing orderId
  | .pairMissing pair => .pairNotConfigured pair

def buildSettlementMatches (p : PendingAggregation) (state : EngineState) :
    Except EngineError (List SettlementMatch) :=
  p.matchList.mapM (fun m => mapErr resolveError (tryBuildSettlementRow m p.orders state.pairTokens))

def zeroPublicInputs : Vector (BitVec 256) 6 := Vector.replicate 6 0

def submittedEvent (timestamp : DateTime) (batchId auctionId : Uuid) (matchList : List Match) (proof : Bytes) :
    Event :=
  Event.unsequenced timestamp (.batchSubmitted batchId auctionId "" (UInt32.ofNat matchList.length) proof)

/-- A batch as it enters `pending_batches`: never tried, and without an IVC payload yet. -/
def newPendingBatch (batchId auctionId : Uuid) (matchList : List Match) (rows : List SettlementMatch)
    (proof : Bytes) : PendingBatch where
  batchId := batchId
  auctionId := auctionId
  matchList := matchList
  settlementMatches := rows
  proof := proof
  publicInputs := zeroPublicInputs
  ivcPayload := none
  attempts := 0
  nextAttempt := none
  submitting := false

/-- Logs `BatchSubmitted` and inserts the batch, both under the state lock. -/
def finalizePendingBatch (state : EngineState) (store : Store) (clock : DateTime) (ok : Bool)
    (p : PendingAggregation) (proof : Bytes) (rows : List SettlementMatch) :
    Except EngineError (EngineState × Store) := do
  let event := submittedEvent p.auctionAt p.batchId p.auctionId p.matchList proof
  let (store, events) ← appendEvents store clock ok [event]
  let state := state.withBook (state.book.applyAll events)
  let batch := newPendingBatch p.batchId p.auctionId p.matchList rows proof
  return (state.withPendingBatches (state.pendingBatches.insert p.batchId batch), store)

/-- What the aggregator returns from `finalize`. -/
structure FinalProof where
  proofBytes : Bytes
  z0 : Vector Fr 5
  zN : Vector Fr 5
  nSteps : Nat
  policyHash : Fr

def FinalProof.payload (fp : FinalProof) : ProofPayload where
  proofBytes := fp.proofBytes
  z0 := fp.z0.map frToBytes32
  zN := fp.zN.map frToBytes32
  nSteps := fp.nSteps
  policyHash := frToBytes32 fp.policyHash

def PendingBatch.withPayload (pb : PendingBatch) (payload : ProofPayload) : PendingBatch :=
  { pb with ivcPayload := some payload }

def storePayload (state : EngineState) (batchId : Uuid) (payload : ProofPayload) : EngineState :=
  state.withPendingBatches (state.pendingBatches.modify batchId (fun pb => pb.withPayload payload))

def resubmitIdsExcept (state : EngineState) (skip : List Uuid) (now : Instant) : List Uuid :=
  (state.pendingBatches.entries.filter (fun e =>
    !skip.contains e.1 && (e.2.nextAttempt.map (fun t => decide (t ≤ now))).getD true)).map Sigma.fst

/-- How `submit_batch` starts, under the state lock. -/
inductive SubmitStart
  | skip
  | poisoned
  | ready (batch : PendingBatch)

def PendingBatch.markSubmitting (pb : PendingBatch) : PendingBatch := { pb with submitting := true }

/-- All-zero public inputs and no IVC payload: a recovered batch that lost its witness. -/
def PendingBatch.poisoned (pb : PendingBatch) : Bool := pb.ivcPayload.isNone && pb.publicInputs.all (fun u => u == 0)

/-- Takes the submitting flag. A poisoned batch keeps it, which blocks automatic retry. -/
def acquireSubmit (state : EngineState) (batchId : Uuid) : EngineState × SubmitStart :=
  match state.pendingBatches.lookup batchId with
  | none => (state, .skip)
  | some pb =>
    if pb.submitting then (state, .skip)
    else
      let state := state.withPendingBatches (state.pendingBatches.modify batchId PendingBatch.markSubmitting)
      (state, if pb.poisoned then .poisoned else .ready pb)

def PendingBatch.noteFailure (pb : PendingBatch) (min max : Duration) (now : Instant) : PendingBatch :=
  let attempts := Nat.min (pb.attempts + 1) (2 ^ 32 - 1)
  { pb with
    attempts := attempts
    nextAttempt := some (now + computeBackoff min max attempts)
    submitting := false }

def noteSubmitFailure (state : EngineState) (batchId : Uuid) (now : Instant) : EngineState :=
  state.withPendingBatches (state.pendingBatches.modify batchId
    (fun pb => pb.noteFailure state.minBackoff state.maxBackoff now))

def confirmedEvent (now : DateTime) (batchId : Uuid) (txHash : String) : Event :=
  Event.unsequenced now (.batchConfirmed batchId txHash)

def settledEvent (now : DateTime) (batchId : Uuid) (blockNumber : Nat) (txHash : String) : Event :=
  Event.unsequenced now (.batchSettled batchId blockNumber txHash)

/-- The end of `submit_batch` and of `on_batch_settled`: the event was appended before the lock was
taken, and is applied under it now. -/
def closeBatch (state : EngineState) (batchId : Uuid) (event : Event) : EngineState :=
  (state.withBook (state.book.apply event)).withPendingBatches (state.pendingBatches.erase batchId)

end DarkPool
