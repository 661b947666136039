import DarkPool.ReplayProjection

namespace DarkPool

/-- A critical section that took the engine from `st` to `st'` logged `es`, and left in the state
exactly what they mean. -/
structure Commits (env : Env) (st : EngineState) (store : Store) (st' : EngineState) (store' : Store)
    (es : List Event) : Prop where
  logs : store.Logs store' es
  replayable : ∀ ev ∈ es, Replayable env ev
  projection : st'.projection = st.projection.applyAll env es
  book : st'.book.seq ≤ store'.seq

/-- An event that only takes orders away or closes a pair. -/
def EventData.Routine : EventData → Prop
  | .orderCancelled _ _ | .orderExpired _ | .pairSuspended _ | .pairDelisted _ => True
  | _ => False

/-- An event that only moves resting orders. -/
def EventData.BookOnly : EventData → Prop
  | .orderCancelled _ _ | .orderExpired _ | .orderMatched _ _ _ _ _ => True
  | _ => False

/-- What a pending batch settles. -/
structure BatchRow where
  auctionId : Uuid
  matchList : List Match
  settlementMatches : List SettlementMatch

def PendingBatch.row (pb : PendingBatch) : BatchRow := ⟨pb.auctionId, pb.matchList, pb.settlementMatches⟩

def SerializableState.row (st : SerializableState) (b : Uuid) : Option BatchRow :=
  (st.pendingBatches.lookup b).map PendingBatch.row

/-- What the section that logged `es` found of a pair whose status it changed. It logs nothing else, but
delisting cancels every order of the pair. -/
def EventData.Moves (st : EngineState) (es : List Event) : EventData → Prop
  | .pairSuspended key => Pair.parse key = .ok key ∧ (∃ c, st.pairTokens.lookup key = some c ∧ c.status = .active) ∧
      ∀ ev ∈ es, ev.data = .pairSuspended key
  | .pairDelisted key => Pair.parse key = .ok key ∧ (st.pairTokens.lookup key).isSome ∧
      (∀ id ∈ st.book.orderIdsFor key, ∃ ev ∈ es, ∃ reason, ev.data = .orderCancelled id reason) ∧
      ∀ ev ∈ es, ev.data = .pairDelisted key ∨ ∃ id reason, ev.data = .orderCancelled id reason
  | _ => True

/-- A section that logged routine events only and kept what the batches settle. -/
def RoutineCommits (env : Env) (st : EngineState) (store : Store) (st' : EngineState) (store' : Store) : Prop :=
  ∃ es, Commits env st store st' store' es ∧ (∀ ev ∈ es, ev.data.Routine) ∧ (∀ b, st'.row b = st.row b) ∧
    ∀ ev ∈ es, ev.data.Moves st es

variable {env : Env} {st st' : EngineState} {store store' : Store} {now clock : DateTime} {ok : Bool}

/-- A section that logs nothing and keeps the projection. -/
theorem commits_quiet (hproj : st'.projection = st.projection) (hbook : st'.book.seq ≤ store.seq) :
    Commits env st store st' store [] where
  logs := ⟨(List.append_nil _).symm, numbered_nil _, rfl⟩
  replayable := by simp
  projection := hproj
  book := hbook

theorem RoutineCommits.refl (hbook : st.book.seq ≤ store.seq) : RoutineCommits env st store st store :=
  ⟨[], commits_quiet rfl hbook, by simp, fun _ => rfl, by simp⟩

theorem logs_singleton {ev : Event} {stamped : List Event} (hts : 0 < ev.timestamp)
    (h : appendEvents store clock ok [ev] = .ok (store', stamped)) :
    stamped = [ev.withSeq (store.seq + 1)] ∧ store.Logs store' [ev.withSeq (store.seq + 1)] := by
  obtain ⟨-, hs, rfl⟩ := appendEvents_eq_ok.mp h
  obtain rfl := hs.trans (Store.stamp_singleton clock store.seq hts)
  exact ⟨rfl, rfl, numbered_cons.mpr ⟨rfl, numbered_nil _⟩, rfl⟩

theorem logs_event {ev ev' : Event} (h : appendEvents store clock ok [ev] = .ok (store', [ev'])) :
    store.Logs store' [ev'] ∧ ev'.data = ev.data := by
  obtain ⟨-, hs, rfl⟩ := appendEvents_eq_ok.mp h
  cases List.singleton_inj.mp hs
  exact ⟨⟨rfl, numbered_cons.mpr ⟨rfl, numbered_nil _⟩, rfl⟩, rfl⟩

/-- A section that logs one event with a timestamp. -/
theorem commits_singleton {ev : Event} {stamped : List Event} (hts : 0 < ev.timestamp)
    (h : appendEvents store clock ok [ev] = .ok (store', stamped))
    (hplay : Replayable env (ev.withSeq (store.seq + 1)))
    (hproj : st'.projection = st.projection.apply env (ev.withSeq (store.seq + 1)))
    (hbook : st'.book.seq ≤ store.seq + 1) :
    Commits env st store st' store' [ev.withSeq (store.seq + 1)] := by
  obtain ⟨-, hlogs⟩ := logs_singleton hts h
  exact {
    logs := hlogs
    replayable := fun e he => List.mem_singleton.mp he ▸ hplay
    projection := hproj
    book := hlogs.seq ▸ hbook }

section Book

variable {n : Nat} {es : List Event}

/-- The book and the projection move the same orders, as long as none is placed. -/
theorem applyAll_books (hnum : Numbered n es)
    (hes : ∀ ev ∈ es, ∀ id c proof ct, ev.data ≠ .orderPlaced id c proof ct) {b : OrderBook} (hb : b.seq ≤ n)
    {p : Projection} (hp : p.books = b.books) :
    (p.applyAll env es).books = (b.applyAll es).books ∧ (b.applyAll es).seq ≤ n + es.length := by
  induction es generalizing n b p with
  | nil => exact ⟨hp, hb⟩
  | cons ev es ih =>
    obtain ⟨hev, hrest⟩ := numbered_cons.mp hnum
    have hlt : b.seq < ev.seq := by omega
    have hseq : (b.apply ev).seq ≤ n + 1 := by rw [OrderBook.seq_apply hlt, hev]
    have hstep : (p.apply env ev).books = (b.apply ev).books := by
      rw [OrderBook.books_apply hlt, ← hp]
      have hplaced := hes ev List.mem_cons_self
      unfold Projection.apply
      cases hdata : ev.data with
      | orderPlaced id c proof ct => exact absurd hdata (hplaced id c proof ct)
      | _ => rfl
    obtain ⟨hbooks, hlen⟩ := ih hrest (fun e he => hes e (List.mem_cons_of_mem ev he)) hseq hstep
    refine ⟨hbooks, ?_⟩
    rw [List.length_cons]
    exact hlen.trans (by omega)

theorem applyAll_bookOnly (env : Env) (p : Projection) (hes : ∀ ev ∈ es, ev.data.BookOnly) :
    ∃ books, p.applyAll env es = { p with books := books } := by
  induction es generalizing p with
  | nil => exact ⟨p.books, rfl⟩
  | cons ev es ih =>
    obtain ⟨books, hbooks⟩ : ∃ books, p.apply env ev = { p with books := books } := by
      have hev := hes ev List.mem_cons_self
      unfold Projection.apply
      cases hdata : ev.data <;> simp only [hdata, EventData.BookOnly] at hev ⊢
      all_goals exact ⟨_, rfl⟩
    obtain ⟨books', hbooks'⟩ := ih { p with books := books } (fun e he => hes e (List.mem_cons_of_mem ev he))
    refine ⟨books', ?_⟩
    rw [Projection.applyAll, List.foldl_cons, hbooks]
    exact hbooks'

end Book

/-- A section that logs events none of which places an order, and hands them to the book. -/
theorem commits_applyAll (hbook : st.book.seq ≤ store.seq) {events stamped : List Event}
    (ha : appendEvents store clock ok events = .ok (store', stamped))
    (hes : ∀ ev ∈ events, ∀ id c proof ct, ev.data ≠ .orderPlaced id c proof ct)
    (hst : st'.book = st.book.applyAll stamped)
    (hrest : ∃ books, { st'.projection with books := books } = st.projection.applyAll env stamped) :
    Commits env st store st' store' stamped := by
  obtain ⟨-, hstamped, hstore⟩ := appendEvents_eq_ok.mp ha
  have hnum : Numbered store.seq stamped := hstamped ▸ Store.numbered_stamp clock store.seq events
  have hlen : store.seq + events.length = store.seq + stamped.length := by rw [hstamped, Store.length_stamp]
  have hnone : ∀ ev ∈ stamped, ∀ id c proof ct, ev.data ≠ .orderPlaced id c proof ct := by
    rw [hstamped]
    exact Store.forall_data_stamp (fun d => ∀ id c proof ct, d ≠ .orderPlaced id c proof ct) hes
  have hbooks : (st.projection.applyAll env stamped).books = (st.book.applyAll stamped).books ∧
      (st.book.applyAll stamped).seq ≤ store.seq + stamped.length := applyAll_books hnum hnone hbook rfl
  rw [hstore]
  exact {
    logs := ⟨rfl, hnum, hlen⟩
    replayable := by
      intro ev hev
      unfold Replayable
      cases hdata : ev.data with
      | orderPlaced id c proof ct => exact absurd hdata (hnone ev hev id c proof ct)
      | _ => trivial
    projection := by
      obtain ⟨books, hrest⟩ := hrest
      rw [← hrest] at hbooks ⊢
      refine Projection.ext ?_ rfl rfl rfl rfl rfl rfl
      exact (congrArg OrderBook.books hst).trans hbooks.1.symm
    book := by
      rw [hst]
      exact hbooks.2.trans hlen.symm.le }

theorem EventData.BookOnly.not_placed {data : EventData} (h : data.BookOnly) (id : Uuid) (c proof ct : Bytes) :
    data ≠ .orderPlaced id c proof ct := by
  rintro rfl
  exact h

theorem EventData.BookOnly.moves {data : EventData} (h : data.BookOnly) (st : EngineState) (es : List Event) :
    data.Moves st es := by
  cases data <;> trivial

/-- A section that cancels or expires orders. -/
theorem routineCommits_bookOnly (hbook : st.book.seq ≤ store.seq) {events stamped : List Event}
    (ha : appendEvents store clock ok events = .ok (store', stamped))
    (hes : ∀ ev ∈ events, ev.data.BookOnly ∧ ev.data.Routine) :
    RoutineCommits env st store (st.withBook (st.book.applyAll stamped)) store' := by
  have hkind : ∀ ev ∈ stamped, ev.data.BookOnly ∧ ev.data.Routine := by
    rw [(appendEvents_eq_ok.mp ha).2.1]
    exact Store.forall_data_stamp (fun d => d.BookOnly ∧ d.Routine) hes
  obtain ⟨books, hbooks⟩ := applyAll_bookOnly env st.projection (fun ev hev => (hkind ev hev).1)
  refine ⟨stamped, commits_applyAll hbook ha ?_ rfl ⟨books, hbooks.symm⟩, fun ev hev => (hkind ev hev).2, fun _ => rfl,
    fun ev hev => (hkind ev hev).1.moves st stamped⟩
  exact fun ev hev => (hes ev hev).1.not_placed

/-- The configuration survives its trip through the log: it is active, and its interval is a whole
number of milliseconds that fits a `u64`. -/
def PairConfig.Loggable (config : PairConfig) : Prop :=
  config.status = .active ∧ ∀ d ∈ config.auctionInterval, ∃ ms < 2 ^ 64, d = fromMillis ms

theorem fromMillis_asMillis {ms : Nat} (h : ms < 2 ^ 64) : fromMillis (asMillis (fromMillis ms)) = fromMillis ms := by
  unfold fromMillis asMillis
  rw [Nat.mul_div_cancel _ (by decide), Nat.mod_eq_of_lt h]

theorem fromMillis_asMillis_iff {d : Duration} : fromMillis (asMillis d) = d ↔ ∃ ms < 2 ^ 64, d = fromMillis ms := by
  constructor
  · exact fun h => ⟨asMillis d, Nat.mod_lt _ (by decide), h.symm⟩
  · rintro ⟨ms, hms, rfl⟩
    exact fromMillis_asMillis hms

instance (config : PairConfig) : Decidable config.Loggable :=
  have : ∀ d, Decidable (∃ ms < 2 ^ 64, d = fromMillis ms) := fun _ => decidable_of_iff _ fromMillis_asMillis_iff
  inferInstanceAs (Decidable (_ ∧ _))

theorem parseAddressOrZero_formatAddress (a : Address) : parseAddressOrZero (formatAddress a) = a := by
  have hlt : a.toNat < 16 ^ 40 := a.isLt
  have hparse : parseAddress (formatAddress a) = some (BitVec.ofNat 160 a.toNat) := by
    simp [parseAddress, formatAddress, Radix.ofHex_toHex 40 a.toNat hlt]
  rw [parseAddressOrZero, hparse, Option.getD_some, BitVec.ofNat_toNat, BitVec.setWidth_eq]

/-- What the log keeps of a configuration. -/
def PairConfig.logged (config : PairConfig) : PairConfig :=
  replayedConfig (formatAddress config.baseToken) (formatAddress config.quoteToken) config.minOrderSize
    config.tickSize (config.auctionInterval.map asMillis) config.baseDecimals config.quoteDecimals

theorem PairConfig.Loggable.logged {config : PairConfig} (h : config.Loggable) : config = config.logged := by
  obtain ⟨base, quote, bd, qd, min, tick, interval, status⟩ := config
  obtain ⟨hstatus, hinterval⟩ := h
  have hmap : (interval.map asMillis).map fromMillis = interval := by
    cases interval with
    | none => rfl
    | some d =>
      obtain ⟨ms, hms, rfl⟩ := hinterval d rfl
      exact congrArg some (fromMillis_asMillis hms)
  simp only at hstatus
  simp only [PairConfig.logged, replayedConfig, parseAddressOrZero_formatAddress, hmap, hstatus]

theorem canonicaliseReplayedPair_parse {pair key : String} (h : Pair.parse pair = .ok key) :
    canonicaliseReplayedPair key = key := by
  rw [canonicaliseReplayedPair, Pair.parse_idem h]

/-- Replay reads back the order that was placed, under the sequence number of its event. -/
theorem replayOrder_placement {p : Placement} {d : DecryptedOrder} (hp : p.From env d) {ev : Event}
    (hts : ev.timestamp = p.order.submittedAt) :
    replayOrder env ev p.order.id p.commitment p.ciphertext =
      .ok ⟨{ p.order with seq := ev.seq }, ciphertextDigest env p.ciphertext, p.replay⟩ := by
  obtain ⟨nonce, hnonce, hdigest⟩ := hp.nonce
  have hsecrets := hp.secrets
  simp only [deriveOrderSecrets, bind_eq_ok, mapErr_eq_ok] at hsecrets
  obtain ⟨traderId, htrader, commitment, hcommit, saltFr, hsalt, hsecrets⟩ := hsecrets
  have hcommitment : p.commitment = (frToBytes32 commitment).toVec := by
    rw [hp.commitment, ← congrArg OrderSecrets.commitment (Except.ok.inj hsecrets)]
  have hrecomputed : recomputePersistedCommitment env (addressBytes d.trader) d.side.code d.price d.size
      p.secrets.salt = .ok (frToBytes32 commitment) := by
    simp only [recomputePersistedCommitment, computePoseidonCommitment, htrader, hcommit, mapErr, bind,
      Except.bind, pure, Except.pure]
  have hnullifier : p.replay.nullifier = frToBytes32 (computeNullifierNative env commitment saltFr) := by
    rw [hp.nullifier, ← congrArg OrderSecrets.nullifier (Except.ok.inj hsecrets)]
  have hreplay : p.replay = ⟨frToBytes32 (computeNullifierNative env commitment saltFr),
      orderNonceDigest env d.trader nonce⟩ := by
    rw [← hdigest, ← hnullifier]
  have horder := congrArg (fun o : Order => { o with seq := ev.seq }) hp.order
  simp only [replayOrder, hp.decrypts, hp.salt, hrecomputed, mapErr, bytes32ToScalar_frToBytes32, hsalt,
    bind, Except.bind, hcommitment, ne_eq, not_true_eq_false, if_false, hnonce, hp.expiry, hp.pair, pure,
    Except.pure, hreplay, hts]
  exact congrArg (fun o => Except.ok (ReplayedOrder.mk o _ _)) horder.symm

/-- A registration is logged under the canonical pair, which was not registered before. -/
theorem registerPair_logs {pair : String} {config : PairConfig} (hnow : 0 < now)
    (h : registerPairWithEvent st store now clock ok pair config = .ok (st', store')) :
    ∃ key ev, Pair.parse key = .ok key ∧ st.pairTokens.lookup key = none ∧ ev.data = registeredData key config ∧
      store.Logs store' [ev] ∧ st' = st.withPairTokens (st.pairTokens.insert key config) := by
  simp only [registerPairWithEvent, bind_eq_ok, mapErr_eq_ok, guard_eq_ok] at h
  obtain ⟨key, hkey, hnone, ⟨store1, stamped⟩, ha, h⟩ := h
  cases Except.ok.inj h
  obtain ⟨-, hlogs⟩ := logs_singleton hnow ha
  exact ⟨key, _, Pair.parse_idem hkey, by simpa using hnone, rfl, hlogs, rfl⟩

theorem mem_delistEvents {key : String} {openIds : List Uuid} {ev : Event} (h : ev ∈ delistEvents now key openIds) :
    ev.data = .pairDelisted key ∨ ∃ id reason, ev.data = .orderCancelled id reason := by
  rcases List.mem_append.mp h with h | h
  · obtain ⟨id, -, rfl⟩ := List.mem_map.mp h
    exact Or.inr ⟨id, _, rfl⟩
  · exact Or.inl (List.mem_singleton.mp h ▸ rfl)

section Sections

variable (hbook : st.book.seq ≤ store.seq)
include hbook

theorem suspendPair_commits {pair : String} (hnow : 0 < now)
    (h : suspendPair st store now clock ok pair = .ok (st', store')) :
    RoutineCommits env st store st' store' := by
  simp only [suspendPair, bind_eq_ok, mapErr_eq_ok] at h
  obtain ⟨key, hkey, h⟩ := h
  split at h
  next => simp at h
  next cfg hcfg =>
    split at h
    next =>
      cases Except.ok.inj h
      exact RoutineCommits.refl hbook
    next => simp at h
    next hactive =>
      obtain ⟨⟨store1, stamped⟩, ha, h⟩ := bind_eq_ok.mp h
      cases Except.ok.inj h
      refine ⟨_, commits_singleton hnow ha trivial ?_ (by exact Nat.le_succ_of_le hbook), ?_, fun _ => rfl, ?_⟩
      · simp only [Projection.apply, Event.withSeq, Event.unsequenced, Projection.setStatus,
          canonicaliseReplayedPair_parse hkey]
        rfl
      · exact fun ev hev => List.mem_singleton.mp hev ▸ trivial
      · intro ev hev
        rw [List.mem_singleton.mp hev]
        exact ⟨Pair.parse_idem hkey, ⟨cfg, hcfg, hactive⟩, fun e he => List.mem_singleton.mp he ▸ rfl⟩

theorem cancelOrder_commits {orderId : Uuid} {reason : Option String}
    (h : cancelOrder st store now clock ok orderId reason = .ok (st', store')) :
    RoutineCommits env st store st' store' := by
  unfold cancelOrder at h
  split at h
  next =>
    obtain ⟨⟨store1, stamped⟩, ha, h⟩ := bind_eq_ok.mp h
    cases Except.ok.inj h
    exact routineCommits_bookOnly hbook ha (fun ev hev => List.mem_singleton.mp hev ▸ ⟨trivial, trivial⟩)
  next => simp at h

theorem expireOrders_commits {expired : List Event} (hexp : expired.Perm (st.book.collectExpired now)) :
    RoutineCommits env st store (expireOrders st store now clock ok expired).1
      (expireOrders st store now clock ok expired).2 := by
  unfold expireOrders
  split
  next => exact RoutineCommits.refl hbook
  next =>
    split
    next => exact RoutineCommits.refl hbook
    next store1 stamped ha =>
      refine routineCommits_bookOnly hbook ha ?_
      intro ev hev
      obtain ⟨e, he, rfl⟩ := List.mem_map.mp hev
      obtain ⟨o, -, rfl⟩ := List.mem_map.mp (hexp.mem_iff.mp he)
      exact ⟨trivial, trivial⟩

theorem delistPair_commits {pair : String} {openIds dropped : List Uuid}
    (hopen : ∀ key, Pair.parse pair = .ok key → openIds.Perm (st.book.orderIdsFor key))
    (h : delistPair st store now clock ok pair openIds = .ok (st', store', dropped)) :
    RoutineCommits env st store st' store' := by
  simp only [delistPair, bind_eq_ok, mapErr_eq_ok] at h
  obtain ⟨key, hkey, h⟩ := h
  split at h
  next => simp at h
  next cfg hcfg =>
    split at h
    next =>
      cases Except.ok.inj h
      exact RoutineCommits.refl hbook
    next =>
      obtain ⟨⟨store1, stamped⟩, ha, h⟩ := bind_eq_ok.mp h
      cases Except.ok.inj h
      have hstamped := (appendEvents_eq_ok.mp ha).2.1
      have hkind : ∀ ev ∈ delistEvents now key openIds,
          ev.data.Routine ∧ ∀ id c proof ct, ev.data ≠ .orderPlaced id c proof ct := by
        intro ev hev
        rcases mem_delistEvents hev with hd | ⟨id, reason, hd⟩
        · rw [hd]
          exact ⟨trivial, by simp⟩
        · rw [hd]
          exact ⟨trivial, by simp⟩
      refine ⟨stamped, commits_applyAll hbook ha (fun ev hev => (hkind ev hev).2) rfl ?_, ?_, fun _ => rfl, ?_⟩
      · -- The cancellations come first, then the one event that is not the book's.
        have hcancels : ∀ ev ∈ Store.stamp clock store.seq
            (openIds.map (fun id => Event.unsequenced now (.orderCancelled id "pair delisted"))), ev.data.BookOnly := by
          apply Store.forall_data_stamp
          intro ev hev
          obtain ⟨id, -, rfl⟩ := List.mem_map.mp hev
          exact trivial
        obtain ⟨books, hbooks⟩ := applyAll_bookOnly env st.projection hcancels
        rw [hstamped, delistEvents, Store.stamp_append, Projection.applyAll_append, hbooks]
        refine ⟨books, ?_⟩
        simp only [Store.stamp, assignSeqAndTimestamp, Event.unsequenced, Projection.applyAll, List.foldl_cons,
          List.foldl_nil, Projection.apply, Projection.setStatus, canonicaliseReplayedPair_parse hkey]
        rfl
      · rw [hstamped]
        exact Store.forall_data_stamp EventData.Routine (fun ev hev => (hkind ev hev).1)
      · have hcancelled : ∀ id ∈ st.book.orderIdsFor key, ∃ ev ∈ stamped, ∃ reason, ev.data = .orderCancelled id reason := by
          intro id hid
          have hmem : EventData.orderCancelled id "pair delisted" ∈ (delistEvents now key openIds).map Event.data := by
            simp [delistEvents, Event.unsequenced, (hopen key hkey).mem_iff.mpr hid]
          rw [← Store.data_stamp clock store.seq, ← hstamped] at hmem
          obtain ⟨ev, hev, hdata⟩ := List.mem_map.mp hmem
          exact ⟨ev, hev, _, hdata⟩
        have honly : ∀ ev ∈ stamped, ev.data = .pairDelisted key ∨ ∃ id reason, ev.data = .orderCancelled id reason := by
          rw [hstamped]
          exact Store.forall_data_stamp
            (fun data => data = .pairDelisted key ∨ ∃ id reason, data = .orderCancelled id reason)
            (fun ev hev => mem_delistEvents hev)
        intro ev hev
        rcases honly ev hev with hd | ⟨id, reason, hd⟩
        · rw [hd]
          exact ⟨Pair.parse_idem hkey, Option.isSome_of_eq_some hcfg, hcancelled, honly⟩
        · rw [hd]
          exact trivial

theorem persistOrderPlaced_commits {secrets secrets' : Table Uuid OrderSecrets} {p : Placement} {d : DecryptedOrder}
    (hp : p.From env d) (h : persistOrderPlaced st store clock ok env secrets p = .ok (st', store', secrets')) :
    ∃ ev, Commits env st store st' store' [ev] ∧
      ev.data = .orderPlaced p.order.id p.commitment p.proof p.ciphertext ∧ ev.timestamp = p.order.submittedAt ∧
      st'.pendingBatches = st.pendingBatches ∧ secrets' = secrets.insert p.order.id p.secrets ∧
      checkAccepting st p.order.pair = .ok () ∧ checkUnspent st (ciphertextDigest env p.ciphertext) p.replay = .ok () ∧
      ensureOrderCapacity st p.order.trader = .ok () := by
  simp only [persistOrderPlaced, bind_eq_ok] at h
  obtain ⟨_, haccept, _, hunspent, _, hcapacity, ⟨store1, stamped⟩, ha, h⟩ := h
  cases Except.ok.inj h
  obtain ⟨rfl, -⟩ := logs_singleton hp.time_pos ha
  generalize hev : Event.withSeq (Event.unsequenced p.order.submittedAt
    (.orderPlaced p.order.id p.commitment p.proof p.ciphertext)) (store.seq + 1) = ev at ha ⊢
  have hseq : ev.seq = store.seq + 1 := by rw [← hev]; rfl
  have hdata : ev.data = .orderPlaced p.order.id p.commitment p.proof p.ciphertext := by rw [← hev]; rfl
  have hread := replayOrder_placement hp (show ev.timestamp = p.order.submittedAt by rw [← hev]; rfl)
  have hreg : (st.pairTokens.lookup p.order.pair).isSome := by
    unfold checkAccepting at haccept
    split at haccept
    next cfg hcfg => exact Option.isSome_iff_exists.mpr ⟨cfg, hcfg⟩
    next => simp at haccept
  have hlt : st.book.seq < ev.seq := by omega
  refine ⟨_, commits_singleton hp.time_pos ha ?_ ?_ ?_, rfl, rfl, rfl, rfl, haccept, hunspent, hcapacity⟩
  · rw [hev, Replayable, hdata]
    exact ⟨_, hread⟩
  · -- The live section is the one replay runs, with the pair registered already.
    have hplace := @projection_place ⟨st, ∅, ∅, ∅, ∅⟩ ev
      ⟨{ p.order with seq := ev.seq }, ciphertextDigest env p.ciphertext, p.replay⟩ hlt
      (fun books => by rw [hdata]; rfl)
    rw [hev, Projection.apply, hdata]
    simp only [hread]
    rw [← hplace]
    simp only [Replay.place, EngineState.withPairTokens, EngineState.applyEvent, EngineState.withBook, orDefault, hreg,
      if_true, List.headD_cons]
    rfl
  · exact (OrderBook.seq_apply hlt).le.trans hseq.le

/-- The round of one pair: its events are in the log, and its fills and its record in the state. -/
theorem recordRound_commits {result : AuctionResult} {batchIds : List Uuid} {pending : List PendingAggregation}
    (h : recordRound st store now clock ok result batchIds = some (st', store', pending)) :
    ∃ es, Commits env st store st' store' es ∧ es.map Event.data = (auctionEvents now result).map Event.data ∧
      st'.pendingBatches = st.pendingBatches ∧
      pending = aggregations now result (orderSnapshot st.book result.matchList)
        (admittedOrderIds st result.pair) batchIds := by
  unfold recordRound at h
  simp only at h
  split at h
  next => simp at h
  next store1 stamped ha =>
    cases Option.some.inj h
    have hstamped := (appendEvents_eq_ok.mp ha).2.1
    refine ⟨stamped, commits_applyAll hbook ha ?_ rfl ?_, hstamped ▸ Store.data_stamp _ _ _, rfl, rfl⟩
    · intro ev hev
      rcases List.mem_cons.mp hev with rfl | hev
      · simp [executedEvent, Event.unsequenced]
      · obtain ⟨m, -, rfl⟩ := List.mem_map.mp hev
        simp [matchedEvent, Event.unsequenced]
    · rw [hstamped, auctionEvents, Store.stamp]
      have hmatched : ∀ ev ∈ Store.stamp clock (store.seq + 1)
          (result.matchList.map (matchedEvent now result.auctionId)), ev.data.BookOnly := by
        apply Store.forall_data_stamp
        intro ev hev
        obtain ⟨m, -, rfl⟩ := List.mem_map.mp hev
        exact trivial
      obtain ⟨books, hbooks⟩ := applyAll_bookOnly env
        (st.projection.apply env (assignSeqAndTimestamp clock store.seq (executedEvent now result))) hmatched
      exact ⟨books, hbooks.symm⟩

theorem finalizePendingBatch_commits {p : PendingAggregation} {proof : Bytes} {rows : List SettlementMatch}
    (h : finalizePendingBatch st store clock ok p proof rows = .ok (st', store')) :
    ∃ ev, Commits env st store st' store' [ev] ∧
      ev.data = .batchSubmitted p.batchId p.auctionId "" (UInt32.ofNat p.matchList.length) proof ∧
      st'.pendingBatches =
        st.pendingBatches.insert p.batchId (newPendingBatch p.batchId p.auctionId p.matchList rows proof) := by
  simp only [finalizePendingBatch, bind_eq_ok] at h
  obtain ⟨⟨store1, stamped⟩, ha, h⟩ := h
  cases Except.ok.inj h
  obtain rfl := (appendEvents_eq_ok.mp ha).2.1
  refine ⟨_, commits_applyAll hbook ha ?_ rfl ⟨st.book.books, ?_⟩, rfl, rfl⟩
  · exact fun ev hev => List.mem_singleton.mp hev ▸ by simp [submittedEvent, Event.unsequenced]
  · exact Projection.ext rfl rfl rfl (Table.keySet_insert _ _ _) rfl rfl rfl

/-- A section that only rewrites how far a batch has got. -/
theorem routineCommits_modify (b : Uuid) {f : PendingBatch → PendingBatch} (hf : ∀ pb, (f pb).row = pb.row) :
    RoutineCommits env st store (st.withPendingBatches (st.pendingBatches.modify b f)) store := by
  refine ⟨[], commits_quiet ?_ hbook, by simp, ?_, by simp⟩
  · rw [EngineState.projection_withPendingBatches, Table.keySet_modify]
    rfl
  · intro b'
    simp only [SerializableState.row, EngineState.withPendingBatches, Table.lookup_modify_eq]
    split
    next => rw [Option.map_map, show PendingBatch.row ∘ f = PendingBatch.row from funext hf]
    next => rfl

theorem storePayload_commits (b : Uuid) (payload : ProofPayload) :
    RoutineCommits env st store (storePayload st b payload) store := routineCommits_modify hbook b (fun _ => rfl)

theorem noteSubmitFailure_commits (b : Uuid) (at_ : Instant) :
    RoutineCommits env st store (noteSubmitFailure st b at_) store := routineCommits_modify hbook b (fun _ => rfl)

theorem acquireSubmit_commits (b : Uuid) : RoutineCommits env st store (acquireSubmit st b).1 store := by
  unfold acquireSubmit
  split
  next => exact RoutineCommits.refl hbook
  next =>
    split
    next => exact RoutineCommits.refl hbook
    next => exact routineCommits_modify hbook b (fun _ => rfl)

/-- `BatchFolded` is logged without the lock, and changes no state. -/
theorem folded_commits {batchId : Uuid} {round : Nat} {pair : String} {root : Bytes} {stamped : List Event}
    (h : appendEvents store clock ok [Event.unsequenced now (.batchFolded batchId round pair root)] =
      .ok (store', stamped)) :
    ∃ ev, Commits env st store st store' [ev] ∧ ev.data = .batchFolded batchId round pair root := by
  obtain ⟨-, rfl, rfl⟩ := appendEvents_eq_ok.mp h
  have hnum := Store.numbered_stamp clock store.seq [Event.unsequenced now (.batchFolded batchId round pair root)]
  refine ⟨_, ⟨⟨rfl, hnum, rfl⟩, ?_, rfl, ?_⟩, rfl⟩
  · exact fun ev hev => List.mem_singleton.mp hev ▸ trivial
  · exact hbook.trans (Nat.le_add_right _ _)

end Sections

end DarkPool
