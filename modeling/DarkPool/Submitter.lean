import DarkPool.Solvency
import DarkPool.Batch

namespace DarkPool

@[simp] theorem get_map {α β : Type} {n : Nat} (f : α → β) (v : Vector α n) (i : Fin n) : (v.map f).get i = f (v.get i) := by
  simp [Vector.get]

inductive SettlementError
  | negativeAmount
  | precisionLoss
  | parse
  | subCircuitPrecision
  | tooManyMatches (count : Nat)
  | invalidProofLength (actual : Nat)
  | rpc (reason : String)
  deriving DecidableEq

def decimalToWei (x : Decimal) : Except SettlementError Nat :=
  if x < 0 then .error .negativeAmount
  else
    let scaled := x * 10 ^ 18
    if scaled.den ≠ 1 then .error .precisionLoss
    else if scaled.num.toNat < 2 ^ 256 then .ok scaled.num.toNat else .error .parse

/-- The id in the low sixteen bytes. -/
def uuidToBytes32 (id : Uuid) : Bytes32 := id.setWidth 256

def settlementMatchToSol (m : SettlementMatch) : Except SettlementError SolMatch := do
  let price ← decimalToWei m.price
  let size ← decimalToWei m.size
  if price % weiToCircuitScale ≠ 0 ∨ size % weiToCircuitScale ≠ 0 then .error .subCircuitPrecision
  else
    return ⟨uuidToBytes32 m.bidOrderId, uuidToBytes32 m.askOrderId, m.bidTrader, m.askTrader, m.baseToken,
      m.quoteToken, price, size⟩

def maxMatchesPerBatch : Nat := 256

def groth16ProofLen : Nat := 256

/-- How far an attempt gets before it fails or times out: which of its transactions are mined, and
whether the answer arrives. -/
inductive Reach
  | nothing
  | session
  | settle
  | answer
  deriving DecidableEq

/-- The session that `submit_batch` makes of a stored payload. -/
def sessionOf (batchId : Uuid) (payload : ProofPayload) : Session where
  sessionId := uuidToBytes32 batchId
  proof := payload.proofBytes
  z0 := payload.z0.map BitVec.toNat
  zN := payload.zN.map BitVec.toNat
  nSteps := payload.nSteps
  policyHash := payload.policyHash.toNat

namespace EthSubmitter

variable (d : Deployment) (sender : Address) (p : Pool) (reach : Reach)

/-- The two transactions of `submit_session`, the second only after the receipt of the first. -/
def sendSession (s : Session) (auctionId : Bytes32) (ms : List SolMatch) : Pool × Except SettlementError Unit :=
  if reach = .nothing then (p, .error (.rpc ""))
  else
    match DarkPool.submitSession d p sender s with
    | .error e => (p, .error (.rpc e))
    | .ok p1 =>
      if reach = .session then (p1, .error (.rpc ""))
      else
        match settleAuction d p1 sender s.sessionId auctionId ms with
        | .error e => (p1, .error (.rpc e))
        | .ok p2 => (p2, if reach = .answer then .ok () else .error (.rpc ""))

def submitSession (s : Session) (auctionId : Uuid) (rows : List SettlementMatch) :
    Pool × Except SettlementError Unit :=
  match rows.mapM settlementMatchToSol with
  | .error e => (p, .error e)
  | .ok ms =>
    if maxMatchesPerBatch < ms.length then (p, .error (.tooManyMatches ms.length))
    else sendSession d sender p reach s (uuidToBytes32 auctionId) ms

/-- The one transaction of the Groth16 path. -/
def submit (batchId auctionId : Uuid) (proof : Bytes) (publicInputs : Vector (BitVec 256) 6)
    (rows : List SettlementMatch) : Pool × Except SettlementError Unit :=
  match rows.mapM settlementMatchToSol with
  | .error e => (p, .error e)
  | .ok ms =>
    if proof.length ≠ groth16ProofLen then (p, .error (.invalidProofLength proof.length))
    else if maxMatchesPerBatch < ms.length then (p, .error (.tooManyMatches ms.length))
    else if reach = .nothing then (p, .error (.rpc ""))
    else
      match submitBatch d p sender (uuidToBytes32 batchId) (uuidToBytes32 auctionId) proof
          (publicInputs.map BitVec.toNat) ms with
      | .error e => (p, .error (.rpc e))
      | .ok p1 => (p1, if reach = .answer then .ok () else .error (.rpc ""))

end EthSubmitter

/-- One call of `submit_batch` against the chain; `confirmed` is the logged event, if its append goes
through. -/
structure Attempt where
  reach : Reach
  now : Instant
  confirmed : Option Event

section Attempts

variable (d : Deployment) (sender : Address)

/-- The call of the submitter, on the path the batch takes. -/
def callSubmitter (p : Pool) (pb : PendingBatch) (reach : Reach) : Pool × Except SettlementError Unit :=
  match pb.ivcPayload with
  | some payload =>
    EthSubmitter.submitSession d sender p reach (sessionOf pb.batchId payload) pb.auctionId pb.settlementMatches
  | none =>
    EthSubmitter.submit d sender p reach pb.batchId pb.auctionId pb.proof pb.publicInputs pb.settlementMatches

def attemptBatch (batchId : Uuid) (s : EngineState × Pool) (a : Attempt) : EngineState × Pool :=
  match acquireSubmit s.1 batchId with
  | (st, .ready pb) =>
    let answer := callSubmitter d sender s.2 pb a.reach
    match answer.2, a.confirmed with
    | .ok _, some event => (closeBatch st batchId event, answer.1)
    | _, _ => (noteSubmitFailure st batchId a.now, answer.1)
  | (st, _) => (st, s.2)

def attempts (batchId : Uuid) (s : EngineState × Pool) (as : List Attempt) : EngineState × Pool :=
  as.foldl (attemptBatch d sender batchId) s

end Attempts

variable {d : Deployment} {sender : Address} {p p' : Pool}

theorem submitSession_eq_ok {s : Session} (h : submitSession d p sender s = .ok p') :
    p.sessionSubmitted (d.domainId "session" s.sessionId) = false ∧
      p' = p.markSession (d.domainId "session" s.sessionId) (s.zN.get zSettlement) := by
  simp only [submitSession, bind_eq_ok, require_eq_ok] at h
  obtain ⟨_, -, _, -, _, -, _, hnew, _, -, _, -, _, -, _, -, h⟩ := h
  exact ⟨hnew, (Except.ok.inj h).symm⟩

/-- A settled auction stays settled, and its session submitted. -/
theorem settleAuction_guards {sessionId auctionId : Bytes32} {ms : List SolMatch}
    (h : settleAuction d p sender sessionId auctionId ms = .ok p') :
    p.settledAuction (d.domainId "auction" auctionId) = false ∧
      p'.settledAuction (d.domainId "auction" auctionId) = true ∧ p'.sessionSubmitted = p.sessionSubmitted := by
  have hframe := settleMatches_frame (settleAuction_settles h)
  refine ⟨?_, ?_, by rw [hframe]; rfl⟩
  · simp only [settleAuction, bind_eq_ok, require_eq_ok] at h
    obtain ⟨_, -, _, -, _, -, _, -, _, hopen, -⟩ := h
    exact hopen
  · rw [hframe]
    simp [Pool.withBooks, Pool.markAuction]

end DarkPool
