import DarkPool.Capture

namespace DarkPool

/-- The configurations settle in the same tokens. -/
def SameTokens (c c' : PairConfig) : Prop := c.baseToken = c'.baseToken ∧ c.quoteToken = c'.quoteToken

theorem registryRel_sameTokens : RegistryRel SameTokens := ⟨fun _ => ⟨rfl, rfl⟩, fun h _ => h⟩

/-- Tokens survive the log, whatever the rest of the configuration does. -/
theorem sameTokens_logged (config : PairConfig) : SameTokens config config.logged := by
  simp only [SameTokens, PairConfig.logged, replayedConfig, parseAddressOrZero_formatAddress, and_self]

/-- Both tables have the order, with the same trader and pair. -/
def AgreeAt (t t' : Table Uuid Order) (id : Uuid) : Prop :=
  ∃ o o', t.lookup id = some o ∧ t'.lookup id = some o' ∧ o.trader = o'.trader ∧ o.pair = o'.pair

/-- Both tables have both orders of the match. -/
def AgreeOn (t t' : Table Uuid Order) (m : Match) : Prop := AgreeAt t t' m.bid.orderId ∧ AgreeAt t t' m.ask.orderId

theorem AgreeAt.insert {t t' : Table Uuid Order} {id : Uuid} (h : AgreeAt t t' id) (k : Uuid) (o : Order) :
    AgreeAt (t.insert k o) (t'.insert k o) id := by
  unfold AgreeAt
  simp only [Table.lookup_insert_eq]
  split
  next => exact ⟨o, o, rfl, rfl, rfl, rfl⟩
  next => exact h

section Rows

variable {t t' : Table Uuid Order} {pairs pairs' : Table String PairConfig}

/-- A settlement row reads the traders, the pair of the bid and its tokens. -/
theorem tryBuildSettlementRow_congr {m : Match} (hm : AgreeOn t t' m) (hpairs : Registry SameTokens pairs pairs') :
    tryBuildSettlementRow m t pairs = tryBuildSettlementRow m t' pairs' := by
  obtain ⟨⟨bid, bid', hbid, hbid', hbt, hbp⟩, ask, ask', hask, hask', hat, -⟩ := hm
  have hcfg : Option.Rel SameTokens (pairs.lookup bid.pair) (pairs'.lookup bid'.pair) := hbp ▸ hpairs bid.pair
  simp only [tryBuildSettlementRow, hbid, hbid', hask, hask']
  generalize pairs.lookup bid.pair = x at hcfg ⊢
  generalize pairs'.lookup bid'.pair = y at hcfg ⊢
  cases hcfg with
  | none => rw [hbp]
  | some hc => simp only [hbt, hat, hc.1, hc.2]

theorem buildRecoverySettlementMatches_congr {ms : List Match} (hms : ∀ m ∈ ms, AgreeOn t t' m)
    (hpairs : Registry SameTokens pairs pairs') :
    buildRecoverySettlementMatches ms t pairs = buildRecoverySettlementMatches ms t' pairs' := by
  unfold buildRecoverySettlementMatches
  refine List.filterMap_congr (fun m hm => ?_)
  rw [tryBuildSettlementRow_congr (hms m hm) hpairs]

/-- Where the live fold resolved every row, recovery skips none. -/
theorem buildRecoverySettlementMatches_of_live {p : PendingAggregation} {st : EngineState} {rows : List SettlementMatch}
    (h : buildSettlementMatches p st = .ok rows) :
    buildRecoverySettlementMatches p.matchList p.orders st.pairTokens = rows := by
  unfold buildSettlementMatches at h
  unfold buildRecoverySettlementMatches
  generalize p.matchList = ms at h ⊢
  induction ms generalizing rows with
  | nil =>
    cases Except.ok.inj h
    rfl
  | cons m ms ih =>
    rw [List.mapM_cons] at h
    obtain ⟨row, hrow, h⟩ := bind_eq_ok.mp h
    obtain ⟨rest, hrest, h⟩ := bind_eq_ok.mp h
    cases Except.ok.inj h
    rw [List.filterMap_cons, mapErr_eq_ok.mp hrow, ih hrest]
    rfl

end Rows

variable {env : Env} {r r' : Replay} {ev : Event}

theorem row_withPendingBatches_insert (st : EngineState) (b : Uuid) (pb : PendingBatch) (b' : Uuid) :
    (st.withPendingBatches (st.pendingBatches.insert b pb)).row b' = if b' = b then some pb.row else st.row b' := by
  simp only [SerializableState.row, EngineState.withPendingBatches, Table.lookup_insert_eq]
  split <;> rfl

theorem row_closeBatch (st : EngineState) (b : Uuid) (ev : Event) (b' : Uuid) :
    (closeBatch st b ev).row b' = if b' = b then none else st.row b' := by
  simp only [closeBatch, SerializableState.row, EngineState.withPendingBatches, EngineState.withBook,
    Table.lookup_erase_eq]
  split <;> rfl

/-- What replay puts in a batch it has not seen: the matches it remembers, resolved against the orders
it has replayed. -/
def Replay.newRow (r : Replay) (auctionId : Uuid) : BatchRow :=
  let ms := (r.matchesByAuction.lookup auctionId).getD []
  ⟨auctionId, ms, buildRecoverySettlementMatches ms r.placedOrders r.state.pairTokens⟩

theorem row_submit (ev : Event) (b a : Uuid) (proof : Bytes) (b' : Uuid) :
    (r.submit ev b a proof).state.row b' =
      if b' = b ∧ r.state.row b = none then some (r.newRow a) else r.state.row b' := by
  have hrow : r.state.row b = none ↔ r.state.pendingBatches.lookup b = none := by
    simp [SerializableState.row]
  unfold Replay.submit
  simp only
  split
  next hsome =>
    have hne : ¬ r.state.row b = none := by
      rw [hrow]
      exact fun hnone => by simp [EngineState.applyEvent, EngineState.withBook, hnone] at hsome
    rw [if_neg (fun h => hne h.2)]
    rfl
  next hnone =>
    have heq : r.state.row b = none := by
      rw [hrow]
      simpa [EngineState.applyEvent, EngineState.withBook] using hnone
    rw [Replay.withState, row_withPendingBatches_insert]
    by_cases hb : b' = b
    · rw [if_pos hb, if_pos ⟨hb, heq⟩]
      rfl
    · rw [if_neg hb, if_neg (fun h => hb h.1)]
      rfl

/-- The directory of placed orders, one event further. -/
def listPlaced (env : Env) (t : Table Uuid Order) (ev : Event) : Table Uuid Order :=
  match ev.data with
  | .orderPlaced orderId commitment _ ciphertext =>
    match replayOrder env ev orderId commitment ciphertext with
    | .ok o => t.insert o.order.id o.order
    | .error _ => t
  | _ => t

theorem replayEvent_placedOrders (h : replayEvent env r ev = .ok r') :
    r'.placedOrders = listPlaced env r.placedOrders ev := by
  unfold listPlaced
  cases hdata : ev.data with
  | orderPlaced orderId commitment proof ciphertext =>
    obtain ⟨o, ho, rfl⟩ := replayEvent_placed hdata h
    simp only [ho]
    rfl
  | batchSubmitted batchId auctionId txHash count proof =>
    simp only [replayEvent, hdata, Except.ok.injEq] at h
    rw [← h]
    unfold Replay.submit
    simp only
    split <;> rfl
  | _ =>
    simp only [replayEvent, hdata, Except.ok.injEq] at h
    subst h
    rfl

theorem replayAll_placedOrders {es : List Event} (h : replayAll env r es = .ok r') :
    r'.placedOrders = es.foldl (listPlaced env) r.placedOrders := by
  induction es generalizing r with
  | nil =>
    cases Except.ok.inj h
    rfl
  | cons ev es ih =>
    unfold replayAll at h
    rw [List.foldlM_cons] at h
    obtain ⟨r1, h1, h⟩ := bind_eq_ok.mp h
    rw [ih h, List.foldl_cons, replayEvent_placedOrders h1]

end DarkPool
