import DarkPool.Submitter
import DarkPool.Tick

namespace DarkPool

/-- What the operator sends for a chunk: a session and its settlement, or one Groth16 batch. -/
inductive ChunkProof
  | ivc (s : Session)
  | groth16 (proof : Bytes) (publicInputs : Vector Nat 6)

/-- A chunk on its way to the chain. -/
structure ChunkCall where
  batchId : Bytes32
  auctionId : Bytes32
  rows : List SolMatch
  proof : ChunkProof

section Calls

variable (d : Deployment) (sender : Address)

def settleChunk (p : Pool) (c : ChunkCall) : Except Revert Pool :=
  match c.proof with
  | .ivc s => do
    let p ← submitSession d p sender s
    settleAuction d p sender s.sessionId c.auctionId c.rows
  | .groth16 proof publicInputs => submitBatch d p sender c.batchId c.auctionId proof publicInputs c.rows

def settleChunks (p : Pool) (cs : List ChunkCall) : Except Revert Pool := cs.foldlM (settleChunk d sender) p

/-- The calls for the aggregations of a tick, under the ids the engine gives them. -/
def chunkCalls (pending : List PendingAggregation) (rows : PendingAggregation → List SolMatch)
    (proof : PendingAggregation → ChunkProof) : List ChunkCall :=
  pending.map (fun p => ⟨uuidToBytes32 p.batchId, uuidToBytes32 p.auctionId, rows p, proof p⟩)

end Calls

variable {d : Deployment} {sender : Address} {p p' : Pool} {c : ChunkCall}

theorem submitBatch_guards {batchId auctionId : Bytes32} {proof : Bytes} {publicInputs : Vector Nat 6}
    {ms : List SolMatch} (h : submitBatch d p sender batchId auctionId proof publicInputs ms = .ok p') :
    p.settledAuction (d.domainId "auction" auctionId) = false ∧
      p'.settledAuction (d.domainId "auction" auctionId) = true := by
  refine ⟨?_, ?_⟩
  · simp only [submitBatch, bind_eq_ok, require_eq_ok] at h
    obtain ⟨_, -, _, -, _, -, _, hopen, -⟩ := h
    exact hopen
  · rw [settleMatches_frame (submitBatch_settles h)]
    simp [Pool.withBooks, Pool.markBatch]

/-- Either arm settles the auction, and refuses one that is settled. -/
theorem settleChunk_guards (h : settleChunk d sender p c = .ok p') :
    p.settledAuction (d.domainId "auction" c.auctionId) = false ∧
      p'.settledAuction (d.domainId "auction" c.auctionId) = true := by
  unfold settleChunk at h
  split at h
  next s hs =>
    obtain ⟨p1, h1, h2⟩ := bind_eq_ok.mp h
    obtain ⟨hopen, hdone, -⟩ := settleAuction_guards h2
    have hsame : p1.settledAuction = p.settledAuction := by rw [(submitSession_eq_ok h1).2]; rfl
    exact ⟨hsame ▸ hopen, hdone⟩
  next proof publicInputs hs => exact submitBatch_guards h

/-- The batches of one auction can be settled in any order only if there is one at most: the first
settles the auction for all of them. -/
theorem settleChunks_all_iff {cs : List ChunkCall} {auctionId : Bytes32} (hauction : ∀ c ∈ cs, c.auctionId = auctionId)
    (hvalid : ∀ c ∈ cs, ∃ p', settleChunk d sender p c = .ok p') :
    (∀ order, order.Perm cs → ∃ p', settleChunks d sender p order = .ok p') ↔ cs.length ≤ 1 := by
  constructor
  · intro hall
    by_contra hmany
    match cs, hmany with
    | c1 :: c2 :: rest, _ =>
      obtain ⟨p', hp'⟩ := hall _ (List.Perm.refl _)
      unfold settleChunks at hp'
      rw [List.foldlM_cons] at hp'
      obtain ⟨p1, h1, hp'⟩ := bind_eq_ok.mp hp'
      rw [List.foldlM_cons] at hp'
      obtain ⟨p2, h2, -⟩ := bind_eq_ok.mp hp'
      have hdone := (settleChunk_guards h1).2
      have hopen := (settleChunk_guards h2).1
      rw [hauction c1 (by simp)] at hdone
      rw [hauction c2 (by simp), hdone] at hopen
      simp at hopen
    | [], hmany => simp at hmany
    | [c], hmany => simp at hmany
  · intro hone order hperm
    match cs, hone with
    | [], _ =>
      rw [hperm.eq_nil]
      exact ⟨p, rfl⟩
    | [c], _ =>
      obtain ⟨p', hp'⟩ := hvalid c List.mem_cons_self
      rw [List.perm_singleton.mp hperm]
      refine ⟨p', ?_⟩
      unfold settleChunks
      rw [List.foldlM_cons, hp']
      rfl

/-- All batches that a round is split into can settle on the chain, in any order, exactly when the round
fits into one. -/
theorem round_settles_iff (now : DateTime) (result : AuctionResult) (orders : Table Uuid Order) (admitted batchIds : List Uuid)
    (hids : batchIds.length = (result.matchList.pieces engineBatchSize).length)
    (rows : PendingAggregation → List SolMatch) (proof : PendingAggregation → ChunkProof)
    (hvalid : ∀ c ∈ chunkCalls (aggregations now result orders admitted batchIds) rows proof,
      ∃ p', settleChunk d sender p c = .ok p') :
    (∀ order, order.Perm (chunkCalls (aggregations now result orders admitted batchIds) rows proof) →
      ∃ p', settleChunks d sender p order = .ok p') ↔ result.matchList.length ≤ engineBatchSize := by
  have hlen : (chunkCalls (aggregations now result orders admitted batchIds) rows proof).length =
      (result.matchList.pieces engineBatchSize).length := by
    simp [chunkCalls, aggregations, hids]
  have hauction : ∀ c ∈ chunkCalls (aggregations now result orders admitted batchIds) rows proof,
      c.auctionId = uuidToBytes32 result.auctionId := by
    intro c hc
    obtain ⟨q, hq, rfl⟩ := List.mem_map.mp hc
    obtain ⟨x, -, rfl⟩ := List.mem_map.mp hq
    rfl
  rw [settleChunks_all_iff hauction hvalid, hlen, List.length_pieces_le_one (by decide)]

namespace Onchain

def smallMatch : SolMatch := { selfMatch with price := 10 ^ 16, size := 10 ^ 16 }

/-- A round of nine matches, one more than a batch carries. -/
def wideRound : AuctionResult := ⟨21, "ETH-USDC", 1, 9, List.replicate 9 ⟨⟨11, 1⟩, ⟨12, 1⟩, 1, 1⟩⟩

def chunkRows (q : PendingAggregation) : List SolMatch := List.replicate q.matchList.length smallMatch

/-- The accumulator a proof of the chunk carries. -/
def chunkAcc (q : PendingAggregation) : Nat :=
  match settlementChain deployment 7 (chunkRows q) with
  | .ok acc => acc
  | .error _ => 0

def chunkProof (q : PendingAggregation) : ChunkProof :=
  .ivc ⟨uuidToBytes32 q.batchId, [], sessionStart, #v[0, 0, 0, chunkAcc q, 0], 1, 0⟩

def roundPool : Pool := (Chain.run deployment start setup).pool

def roundCalls (result : AuctionResult) (batchIds : List Uuid) : List ChunkCall :=
  chunkCalls (aggregations 0 result ∅ [] batchIds) chunkRows chunkProof

end Onchain

open Onchain in
/-- Each of the two batches of a wide round settles on its own, but not both. -/
theorem wideRound_never_settles :
    (∀ c ∈ roundCalls wideRound [31, 32], (settleChunk deployment 4 roundPool c).toOption.isSome = true) ∧
    (settleChunks deployment 4 roundPool (roundCalls wideRound [31, 32])).toOption.isSome = false := by
  have h : ((roundCalls wideRound [31, 32]).all (fun c => (settleChunk deployment 4 roundPool c).toOption.isSome) &&
      !(settleChunks deployment 4 roundPool (roundCalls wideRound [31, 32])).toOption.isSome) = true := by
    decide
  rw [Bool.and_eq_true, List.all_eq_true, Bool.not_eq_true'] at h
  exact h

open Onchain in
theorem round_settles_narrow :
    ∃ p', settleChunks deployment 4 roundPool (roundCalls { wideRound with matchList := wideRound.matchList.take 8 } [31]) =
      .ok p' := by
  refine (round_settles_iff 0 { wideRound with matchList := wideRound.matchList.take 8 } ∅ [] [31] rfl chunkRows
    chunkProof ?_).mpr (by decide) _ (List.Perm.refl _)
  have h : ((roundCalls { wideRound with matchList := wideRound.matchList.take 8 } [31]).all
      (fun c => (settleChunk deployment 4 roundPool c).toOption.isSome)) = true := by decide
  intro c hc
  exact exists_ok_of_isSome (List.all_eq_true.mp h c hc)

end DarkPool
