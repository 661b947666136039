import DarkPool.Commits
import DarkPool.Tasks

namespace DarkPool

variable {env : Env}

/-- An event that ends the pendency of the batch. -/
def EventData.Closes (data : EventData) (b : Uuid) : Prop :=
  (∃ txHash, data = .batchConfirmed b txHash) ∨ ∃ blockNumber txHash, data = .batchSettled b blockNumber txHash

instance (data : EventData) (b : Uuid) : Decidable (data.Closes b) :=
  match data with
  | .batchConfirmed b' _ => decidable_of_iff (b' = b) (by simp [EventData.Closes])
  | .batchSettled b' _ _ => decidable_of_iff (b' = b) (by simp [EventData.Closes])
  | .orderPlaced .. | .orderCancelled .. | .orderExpired .. | .auctionExecuted .. | .orderMatched ..
  | .batchSubmitted .. | .pairRegistered .. | .pairSuspended .. | .pairDelisted .. | .batchFolded .. =>
    isFalse (by simp [EventData.Closes])

/-- The configuration the section registers. -/
def Action.registers : Action → Option PairConfig
  | .registerPair _ config _ _ _ => some config
  | _ => none

namespace World

/-- What every section keeps of the ids in use, and what it can add to the witnesses and settlement
rows the fold loop works with. -/
structure Frame (w w' : World env) : Prop where
  used : ∀ id, w.Used id → w'.Used id
  reserved : w.reserved.Nodup ∧ (∀ id ∈ w.reserved, id ∈ w.issued) →
    w'.reserved.Nodup ∧ ∀ id ∈ w'.reserved, id ∈ w'.issued
  witnessed : ∀ x ∈ w'.witnessed, x ∈ w.witnessed ∨ x.1 ∈ w.inflight ∧
    buildBatchWitness w.secrets x.1.batchId x.1.auctionId x.1.matchList x.1.orders = .ok x.2
  resolved : ∀ x ∈ w'.resolved, x ∈ w.resolved ∨ x.1 ∈ w.inflight ∧ buildSettlementMatches x.1 w.state = .ok x.2

def SecretsShrink (w w' : World env) : Prop := ∀ id s, w'.secrets.lookup id = some s → w.secrets.lookup id = some s

/-- The aggregation whose batch the section submits. -/
def submits (w : World env) : Action → Option PendingAggregation
  | .foldSubmit i _ _ =>
    match w.tasks[i]? with
    | some (.folding (p :: _) (.resolved _ _) _) => some p
    | _ => none
  | _ => none

/-- The placement the section books. -/
def persists (w : World env) : Action → Option (PreparedOrder env)
  | .persistOrder i _ _ =>
    match w.tasks[i]? with
    | some (.prepared p) => some p
    | _ => none
  | _ => none

/-- Everything a critical section can do to the state, the log and the work in flight. -/
inductive Effect (w : World env) : Action → World env → Prop
  | routine {a : Action} {w' : World env} (frame : Frame w w')
      (core : RoutineCommits env w.state w.store w'.state w'.store) (secrets : w.SecretsShrink w')
      (closing : w'.closing.Perm w.closing) (inflight : w'.inflight.Subperm w.inflight) : Effect w a w'
  | register {a : Action} {w' : World env} (frame : Frame w w') (config : PairConfig)
      (registers : a.registers = some config) (key : String) (ev : Event) (parse : Pair.parse key = .ok key)
      (absent : w.state.pairTokens.lookup key = none) (data : ev.data = registeredData key config)
      (logs : w.store.Logs w'.store [ev])
      (state : w'.state = w.state.withPairTokens (w.state.pairTokens.insert key config))
      (secrets : w'.secrets = w.secrets) (closing : w'.closing = w.closing) (inflight : w'.inflight = w.inflight) :
      Effect w a w'
  | place {a : Action} {w' : World env} (frame : Frame w w') (p : PreparedOrder env) (ev : Event)
      (fresh : ¬ w.Used p.order.id) (used : w'.Used p.order.id)
      (core : Commits env w.state w.store w'.state w'.store [ev])
      (data : ev.data = .orderPlaced p.order.id p.commitment p.proof p.ciphertext)
      (timestamp : ev.timestamp = p.order.submittedAt)
      (pending : w'.state.pendingBatches = w.state.pendingBatches)
      (secrets : w'.secrets = w.secrets.insert p.order.id p.secrets)
      (closing : w'.closing.Perm w.closing) (inflight : w'.inflight.Perm w.inflight)
      (accepting : checkAccepting w.state p.order.pair = .ok ())
      (unspent : checkUnspent w.state (ciphertextDigest env p.ciphertext) p.replay = .ok ())
      (persists : w.persists a = some p) (capacity : ensureOrderCapacity w.state p.order.trader = .ok ()) : Effect w a w'
  | round {clock : DateTime} {ok : Bool} {w' : World env} (frame : Frame w w') (now : Now) (auctionId : Uuid) (batchIds : List Uuid)
      (fresh : ∀ id ∈ auctionId :: batchIds, ¬ w.Used id ∧ w'.Used id) (nodup : (auctionId :: batchIds).Nodup)
      (pair : String) (result : AuctionResult)
      (run : tickRound w.state pair auctionId = some result)
      (pieces : batchIds.length = (result.matchList.pieces engineBatchSize).length)
      (es : List Event) (core : Commits env w.state w.store w'.state w'.store es)
      (data : es.map Event.data = (auctionEvents now result).map Event.data)
      (pending : w'.state.pendingBatches = w.state.pendingBatches)
      (secrets : w'.secrets = w.secrets) (closing : w'.closing = w.closing)
      (inflight : w'.inflight.Perm (w.inflight ++ aggregations now result
        (orderSnapshot w.state.book result.matchList) (admittedOrderIds w.state result.pair) batchIds))
      (ticking : ∃ t, w.tick = some t ∧ pair ∈ t.pairs) : Effect w (.tickPair auctionId batchIds clock ok) w'
  | folds {i : Nat} {now : Now} {clock : DateTime} {ok : Bool} {w' : World env} (frame : Frame w w')
      (p : PendingAggregation) (queue : List PendingAggregation) (root : Bytes) (round : Nat) (toSubmit : List Uuid)
      (counted : Task.folding (p :: queue) (.counted root round) toSubmit ∈ w.tasks) (ev : Event)
      (core : Commits env w.state w.store w'.state w'.store [ev])
      (data : ev.data = .batchFolded p.batchId round p.pair root) (state : w'.state = w.state)
      (secrets : w'.secrets = w.secrets) (closing : w'.closing.Perm w.closing)
      (inflight : w'.inflight.Subperm w.inflight) : Effect w (.foldLog i now clock ok) w'
  | submit {a : Action} {w' : World env} (frame : Frame w w') (p : PendingAggregation)
      (rows : List SettlementMatch) (proof : Bytes) (ev : Event)
      (submits : w.submits a = some p) (resolved : (p, rows) ∈ w.resolved)
      (core : Commits env w.state w.store w'.state w'.store [ev])
      (data : ev.data = .batchSubmitted p.batchId p.auctionId "" (UInt32.ofNat p.matchList.length) proof)
      (pending : w'.state.pendingBatches =
        w.state.pendingBatches.insert p.batchId (newPendingBatch p.batchId p.auctionId p.matchList rows proof))
      (secrets : w'.secrets = w.secrets) (closing : w'.closing.Perm w.closing)
      (inflight : w.inflight.Perm (p :: w'.inflight)) : Effect w a w'
  | opens {a : Action} {w' : World env} (frame : Frame w w') (b : Uuid) (ev : Event) (closes : ev.data.Closes b)
      (logs : w.store.Logs w'.store [ev]) (state : w'.state = w.state) (secrets : w'.secrets = w.secrets)
      (closing : w'.closing.Perm ((b, ev) :: w.closing)) (inflight : w'.inflight.Perm w.inflight) : Effect w a w'
  | closes {a : Action} {w' : World env} (frame : Frame w w') (b : Uuid) (ev : Event)
      (store : w'.store = w.store) (state : w'.state = closeBatch w.state b ev) (secrets : w'.secrets = w.secrets)
      (closing : w.closing.Perm ((b, ev) :: w'.closing)) (inflight : w'.inflight.Perm w.inflight) : Effect w a w'

/-- What holds between the parts of a world besides what the log means. -/
structure Ok (w : World env) : Prop where
  book : w.state.book.seq ≤ w.store.seq
  reserved : w.reserved.Nodup ∧ ∀ id ∈ w.reserved, id ∈ w.issued
  closing : ∀ c ∈ w.closing, c.2.data.Closes c.1 ∧ c.2.seq ≤ w.store.seq

theorem ok_initial (env : Env) : (initial env).Ok where
  book := le_rfl
  reserved := ⟨List.nodup_nil, by simp [reserved, initial]⟩
  closing := by simp [closing, initial]

end World

theorem EventData.Closes.inert {data : EventData} {b : Uuid} (h : data.Closes b) (books : Table String PerPairBook) :
    applyBooks books data = books := by
  rcases h with ⟨txHash, rfl⟩ | ⟨blockNumber, txHash, rfl⟩ <;> rfl

theorem seq_closeBatch_le {st : EngineState} {b : Uuid} {ev : Event} {n : Nat} (hst : st.book.seq ≤ n) (hev : ev.seq ≤ n) :
    (closeBatch st b ev).book.seq ≤ n := (OrderBook.seq_apply_le st.book ev).trans (max_le hst hev)

namespace World

theorem Effect.frame {w w' : World env} {a : Action} (h : w.Effect a w') : Frame w w' := by
  cases h <;> assumption

/-- Every section keeps the invariant. -/
theorem Effect.ok {w w' : World env} {a : Action} (h : w.Effect a w') (hok : w.Ok) : w'.Ok := by
  have hgrow : ∀ {cs : List (Uuid × Event)}, (∀ c ∈ cs, c ∈ w.closing) → w.store.seq ≤ w'.store.seq →
      ∀ c ∈ cs, c.2.data.Closes c.1 ∧ c.2.seq ≤ w'.store.seq :=
    fun hsub hseq c hc => ⟨(hok.closing c (hsub c hc)).1, (hok.closing c (hsub c hc)).2.trans hseq⟩
  cases h with
  | routine frame core secrets closing inflight =>
    obtain ⟨es, hcore, -⟩ := core
    exact ⟨hcore.book, frame.reserved hok.reserved,
      hgrow (fun c hc => closing.mem_iff.mp hc) (hcore.logs.seq ▸ Nat.le_add_right _ _)⟩
  | register frame config registers key ev parse absent data logs state secrets closing inflight =>
    have hseq : w.store.seq ≤ w'.store.seq := logs.seq ▸ Nat.le_add_right _ _
    exact ⟨by rw [state]; exact hok.book.trans hseq, frame.reserved hok.reserved,
      hgrow (fun c hc => closing ▸ hc) hseq⟩
  | place frame p ev fresh used core data timestamp pending secrets closing inflight =>
    exact ⟨core.book, frame.reserved hok.reserved,
      hgrow (fun c hc => closing.mem_iff.mp hc) (core.logs.seq ▸ Nat.le_add_right _ _)⟩
  | round frame now auctionId batchIds fresh nodup pair result run pieces es core data pending secrets closing inflight =>
    exact ⟨core.book, frame.reserved hok.reserved,
      hgrow (fun c hc => closing ▸ hc) (core.logs.seq ▸ Nat.le_add_right _ _)⟩
  | folds frame p queue root round toSubmit counted ev core data state secrets closing inflight =>
    exact ⟨core.book, frame.reserved hok.reserved,
      hgrow (fun c hc => closing.mem_iff.mp hc) (core.logs.seq ▸ Nat.le_add_right _ _)⟩
  | submit frame p rows proof ev submits resolved core data pending secrets closing inflight =>
    exact ⟨core.book, frame.reserved hok.reserved,
      hgrow (fun c hc => closing.mem_iff.mp hc) (core.logs.seq ▸ Nat.le_add_right _ _)⟩
  | opens frame b ev closes logs state secrets closing inflight =>
    have hseq : w.store.seq ≤ w'.store.seq := logs.seq ▸ Nat.le_add_right _ _
    refine ⟨by rw [state]; exact hok.book.trans hseq, frame.reserved hok.reserved, ?_⟩
    intro c hc
    rcases List.mem_cons.mp (closing.mem_iff.mp hc) with rfl | hc
    · exact ⟨closes, (numbered_cons.mp logs.numbered).1.le.trans logs.seq.symm.le⟩
    · exact hgrow (fun c hc => hc) hseq c hc
  | closes frame b ev store state secrets closing inflight =>
    obtain ⟨-, hev⟩ := hok.closing (b, ev) (closing.mem_iff.mpr List.mem_cons_self)
    refine ⟨?_, frame.reserved hok.reserved, ?_⟩
    · rw [state, store]
      exact seq_closeBatch_le hok.book hev
    · exact hgrow (fun c hc => closing.mem_iff.mpr (List.mem_cons_of_mem _ hc)) (by rw [store])

end World

end DarkPool
