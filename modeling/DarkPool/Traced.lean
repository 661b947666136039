import DarkPool.Filing

namespace DarkPool

/-- The events `es`, logged after `before`, record a round that was run on the book `before` stands for. -/
structure RoundLog (env : Env) (before es : List Event) (st : EngineState) (now : DateTime) (result : AuctionResult) :
    Prop where
  filed : Filed env before
  books : st.book.books = (projectLog env before).books
  run : tickRound st result.pair result.auctionId = some result
  data : es.map Event.data = (auctionEvents now result).map Event.data

/-- The aggregation is a chunk of the round. -/
structure Chunk (st : EngineState) (result : AuctionResult) (p : PendingAggregation) : Prop where
  auctionId : p.auctionId = result.auctionId
  pair : p.pair = result.pair
  piece : p.matchList ∈ result.matchList.pieces engineBatchSize
  orders : p.orders = orderSnapshot st.book result.matchList
  admitted : p.admittedOrderIds = admittedOrderIds st result.pair

/-- The log has the round that the aggregation is a chunk of. -/
def Traced (env : Env) (log : List Event) (p : PendingAggregation) : Prop :=
  ∃ before es after st now result, log = before ++ (es ++ after) ∧ RoundLog env before es st now result ∧
    Chunk st result p

variable {env : Env}

theorem Traced.append {log : List Event} {p : PendingAggregation} (h : Traced env log p) (es : List Event) :
    Traced env (log ++ es) p := by
  obtain ⟨before, round, after, st, now, result, rfl, hround, hchunk⟩ := h
  exact ⟨before, round, after ++ es, st, now, result, by simp, hround, hchunk⟩

theorem mem_aggregations {now : DateTime} {result : AuctionResult} {orders : Table Uuid Order} {admitted batchIds : List Uuid}
    {p : PendingAggregation} (h : p ∈ aggregations now result orders admitted batchIds) :
    p.batchId ∈ batchIds ∧ p.matchList ∈ result.matchList.pieces engineBatchSize ∧ p.auctionId = result.auctionId ∧
      p.pair = result.pair ∧ p.orders = orders ∧ p.admittedOrderIds = admitted := by
  obtain ⟨c, hc, rfl⟩ := List.mem_map.mp h
  obtain ⟨hid, hpiece⟩ := List.of_mem_zip hc
  exact ⟨hid, hpiece, rfl, rfl, rfl, rfl⟩

namespace World

variable {w w' : World env} {a : Action}

/-- An aggregation is in flight because it was, or because the section recorded its round. -/
theorem Effect.mem_inflight (h : w.Effect a w') {p : PendingAggregation} (hp : p ∈ w'.inflight) :
    p ∈ w.inflight ∨ ∃ now auctionId batchIds clock ok result es, a = .tickPair auctionId batchIds clock ok ∧
      p.batchId ∈ batchIds ∧ result.auctionId = auctionId ∧ tickRound w.state result.pair auctionId = some result ∧
      w.store.Logs w'.store es ∧ es.map Event.data = (auctionEvents now result).map Event.data ∧
      Chunk w.state result p := by
  cases h with
  | routine frame core secrets closing inflight => exact Or.inl (inflight.subset hp)
  | register frame config registers key ev parse absent data logs state secrets closing inflight =>
    exact Or.inl (inflight ▸ hp)
  | place frame p ev fresh used core data timestamp pending secrets closing inflight =>
    exact Or.inl (inflight.mem_iff.mp hp)
  | round frame now auctionId batchIds fresh nodup pair result run pieces es core data pending secrets closing inflight =>
    rcases List.mem_append.mp (inflight.mem_iff.mp hp) with hp | hp
    · exact Or.inl hp
    · obtain ⟨hid, hpiece, hauction, hpair, horders, hadmitted⟩ := mem_aggregations hp
      obtain ⟨hresult, rfl⟩ := tickRound_ids run
      exact Or.inr ⟨now, auctionId, batchIds, _, _, result, es, rfl, hid, hresult, run, core.logs, data,
        hauction, hpair, hpiece, horders, hadmitted⟩
  | folds frame p queue root round toSubmit counted ev core data state secrets closing inflight =>
    exact Or.inl (inflight.subset hp)
  | submit frame q rows proof ev submits resolved core data pending secrets closing inflight =>
    exact Or.inl (inflight.mem_iff.mpr (List.mem_cons_of_mem _ hp))
  | opens frame b ev closes logs state secrets closing inflight => exact Or.inl (inflight.mem_iff.mp hp)
  | closes frame b ev store state secrets closing inflight => exact Or.inl (inflight.mem_iff.mp hp)

end World

/-- The run drew the batch id along with the auction id, for a chunk of its round. -/
def Draws (moves : List Move) (batchId auctionId : Uuid) : Prop :=
  ∃ batchIds clock ok, Move.op (.tickPair auctionId batchIds clock ok) ∈ moves ∧ batchId ∈ batchIds

namespace System

variable {σ σ' : System env} {m : Move} {moves : List Move}

/-- Everything in flight comes from a round of the log. -/
structure Sourced (σ : System env) : Prop extends Recorded σ where
  traced : ∀ p ∈ σ.world.inflight, Traced env σ.log p

theorem sourced_initial (env : Env) : Sourced (initial env) where
  toRecorded := recorded_initial env
  traced := by simp [initial, World.initial, World.inflight, World.collected]

theorem inflight_restarted (state : EngineState) (ivcRound : Table String Nat) (store : Store) :
    ((σ.withCaptured none).withWorld (σ.world.restarted state ivcRound store)).world.inflight = [] := by
  simp [World.inflight, World.collected, withWorld, World.restarted, World.initial]

theorem Effect.sourced (heffect : σ.Effect m σ') (h : Sourced σ) : Sourced σ' := by
  refine ⟨heffect.recorded h.toRecorded, fun p hp => ?_⟩
  have hold : p ∈ σ.world.inflight → Traced env σ'.log p := by
    intro hp
    obtain ⟨es, hlog⟩ := heffect.log
    exact hlog ▸ (h.traced p hp).append es
  cases heffect with
  | op step effect =>
    rcases effect.mem_inflight hp with hp |
      ⟨now, auctionId, batchIds, clock, ok, result, es, rfl, hid, rfl, hrun, hlogs, hdata, hchunk⟩
    · exact hold hp
    · refine ⟨σ.log, es, [], σ.world.state, now, result, ?_, ⟨h.filed, h.books, hrun, hdata⟩, hchunk⟩
      rw [List.append_nil]
      exact log_withWorld hlogs
  | capture idle => exact hold hp
  | publish store world log holds tail covered envelopes =>
    rw [world] at hp
    exact hold hp
  | restart out start seq r es recovers fresh =>
    rw [inflight_restarted] at hp
    simp at hp

/-- Everything in flight has ids that the run drew for it. -/
theorem Effect.draws (heffect : σ.Effect m σ') (hm : m ∈ moves)
    (h : ∀ p ∈ σ.world.inflight, Draws moves p.batchId p.auctionId) :
    ∀ p ∈ σ'.world.inflight, Draws moves p.batchId p.auctionId := by
  intro p hp
  cases heffect with
  | op step effect =>
    rcases effect.mem_inflight hp with hp |
      ⟨now, auctionId, batchIds, clock, ok, result, es, rfl, hid, rfl, hrun, hlogs, hdata, hchunk⟩
    · exact h p hp
    · rw [hchunk.auctionId]
      exact ⟨batchIds, clock, ok, hm, hid⟩
  | capture idle => exact h p hp
  | publish store world log holds tail covered envelopes =>
    rw [world] at hp
    exact h p hp
  | restart out start seq r es recovers fresh =>
    rw [inflight_restarted] at hp
    simp at hp

end System

end DarkPool
