import DarkPool.Log
import DarkPool.Projection

namespace DarkPool

namespace EngineState

variable (st : EngineState)

@[simp] theorem projection_withBook (b : OrderBook) :
    (st.withBook b).projection = { st.projection with books := b.books } := rfl

@[simp] theorem projection_withPairTokens (t : Table String PairConfig) :
    (st.withPairTokens t).projection = { st.projection with pairTokens := t } := rfl

@[simp] theorem projection_withPendingBatches (t : Table Uuid PendingBatch) :
    (st.withPendingBatches t).projection = { st.projection with pending := t.keySet } := rfl

/-- The part of an event's meaning that the book applies by itself. -/
theorem projection_applyEvent {st : EngineState} {ev : Event} (h : st.book.seq < ev.seq) :
    (st.applyEvent ev).projection = { st.projection with books := applyBooks st.projection.books ev.data } := by
  rw [applyEvent, projection_withBook, OrderBook.books_apply h]
  rfl

theorem seq_applyEvent {st : EngineState} {ev : Event} (h : st.book.seq < ev.seq) :
    (st.applyEvent ev).book.seq = ev.seq := OrderBook.seq_apply h

end EngineState

variable {env : Env}

theorem replayEvent_placed {r r' : Replay} {ev : Event} {orderId : Uuid} {commitment proof ciphertext : Bytes}
    (hdata : ev.data = .orderPlaced orderId commitment proof ciphertext) (h : replayEvent env r ev = .ok r') :
    ∃ o, replayOrder env ev orderId commitment ciphertext = .ok o ∧ r' = r.place ev o := by
  simp only [replayEvent, hdata, bind_eq_ok] at h
  obtain ⟨o, ho, h⟩ := h
  exact ⟨o, ho, (Except.ok.inj h).symm⟩

/-- An order is booked by its meaning. -/
theorem projection_place {r : Replay} {ev : Event} {o : ReplayedOrder} (hseq : r.state.book.seq < ev.seq)
    (hinert : ∀ books, applyBooks books ev.data = books) :
    (r.place ev o).state.projection = r.state.projection.place o := by
  have hbook : (r.state.book.apply ev).books = r.state.book.books := by
    rw [OrderBook.books_apply hseq, hinert]
  have hinsert : ((r.state.book.apply ev).insertOrder o.order).books =
      (OrderBook.insertOrder ⟨r.state.book.books, 0⟩ o.order).books := by
    rw [← hbook]
    rfl
  simp only [Replay.place, EngineState.spend, EngineState.applyEvent, EngineState.withBook,
    EngineState.withPairTokens, SerializableState.projection, Projection.place, hinsert]

/-- A batch that is pending already is kept, so either way its id is pending afterwards. -/
theorem projection_submit {r : Replay} {ev : Event} {batchId auctionId : Uuid} {proof : Bytes}
    (hseq : r.state.book.seq < ev.seq) (hinert : ∀ books, applyBooks books ev.data = books) :
    (r.submit ev batchId auctionId proof).state.projection =
        { r.state.projection with pending := insert batchId r.state.projection.pending } ∧
      (r.submit ev batchId auctionId proof).state.book.seq = ev.seq := by
  have hbook : (r.state.applyEvent ev).projection = r.state.projection := by
    rw [EngineState.projection_applyEvent hseq, hinert]
  have hnew := EngineState.seq_applyEvent hseq
  unfold Replay.submit
  simp only
  split
  next hmem =>
    obtain ⟨pb, hpb⟩ := Option.isSome_iff_exists.mp hmem
    have hin : batchId ∈ r.state.projection.pending := Table.mem_keySet.mpr (Table.mem_iff_lookup.mpr ⟨pb, hpb⟩)
    rw [Finset.insert_eq_of_mem hin]
    exact ⟨hbook, hnew⟩
  next =>
    refine ⟨?_, hnew⟩
    rw [Replay.withState, EngineState.projection_withPendingBatches, hbook, Table.keySet_insert]
    rfl

/-- Replaying an event newer than the book adds its meaning to the projection. -/
theorem replayEvent_refines {r r' : Replay} {ev : Event} (hseq : r.state.book.seq < ev.seq)
    (h : replayEvent env r ev = .ok r') :
    r'.state.projection = r.state.projection.apply env ev ∧ r'.state.book.seq ≤ ev.seq := by
  have hbook := OrderBook.books_apply hseq
  have hnew := (EngineState.seq_applyEvent hseq).le
  unfold Projection.apply
  cases hdata : ev.data with
  | orderPlaced orderId commitment proof ciphertext =>
    obtain ⟨o, ho, rfl⟩ := replayEvent_placed hdata h
    refine ⟨?_, hnew⟩
    simp only [ho]
    exact projection_place hseq (fun books => by rw [hdata]; rfl)
  | orderCancelled orderId reason =>
    simp only [replayEvent, hdata, Except.ok.injEq] at h hbook
    rw [← h]
    exact ⟨Projection.ext hbook rfl rfl rfl rfl rfl rfl, hnew⟩
  | orderExpired orderId =>
    simp only [replayEvent, hdata, Except.ok.injEq] at h hbook
    rw [← h]
    exact ⟨Projection.ext hbook rfl rfl rfl rfl rfl rfl, hnew⟩
  | auctionExecuted auctionId pair clearingPrice matchedVolume matchCount timestamp =>
    simp only [replayEvent, hdata, Except.ok.injEq] at h hbook
    rw [← h]
    exact ⟨Projection.ext hbook rfl rfl rfl rfl rfl rfl, hnew⟩
  | orderMatched auctionId bid ask price size =>
    simp only [replayEvent, hdata, Except.ok.injEq] at h hbook
    rw [← h]
    exact ⟨Projection.ext hbook rfl rfl rfl rfl rfl rfl, hnew⟩
  | batchSubmitted batchId auctionId txHash matchCount proof =>
    simp only [replayEvent, hdata, Except.ok.injEq] at h
    rw [← h]
    obtain ⟨hp, hs⟩ := projection_submit hseq (fun books => by rw [hdata]; rfl)
    exact ⟨hp, hs.le⟩
  | batchConfirmed batchId txHash =>
    simp only [replayEvent, hdata, Except.ok.injEq] at h hbook
    rw [← h]
    exact ⟨Projection.ext hbook rfl rfl (Table.keySet_erase _ _) rfl rfl rfl, hnew⟩
  | batchSettled batchId blockNumber txHash =>
    simp only [replayEvent, hdata, Except.ok.injEq] at h hbook
    rw [← h]
    exact ⟨Projection.ext hbook rfl rfl (Table.keySet_erase _ _) rfl rfl rfl, hnew⟩
  | pairRegistered pair baseToken quoteToken minOrderSize tickSize ms baseDecimals quoteDecimals =>
    simp only [replayEvent, hdata, Except.ok.injEq] at h hbook
    rw [← h]
    exact ⟨Projection.ext hbook rfl rfl rfl rfl rfl rfl, hnew⟩
  | pairSuspended pair =>
    simp only [replayEvent, hdata, Except.ok.injEq] at h hbook
    rw [← h]
    exact ⟨Projection.ext hbook rfl rfl rfl rfl rfl rfl, hnew⟩
  | pairDelisted pair =>
    simp only [replayEvent, hdata, Except.ok.injEq] at h hbook
    rw [← h]
    exact ⟨Projection.ext hbook rfl rfl rfl rfl rfl rfl, hnew⟩
  | batchFolded batchId roundIndex pair inputRoot =>
    simp only [replayEvent, hdata, Except.ok.injEq] at h
    rw [← h]
    exact ⟨rfl, hseq.le⟩

theorem replayEvent_total {ev : Event} (h : Replayable env ev) (r : Replay) : ∃ r', replayEvent env r ev = .ok r' := by
  unfold replayEvent
  unfold Replayable at h
  cases hdata : ev.data <;> simp only [hdata] at h ⊢
  case orderPlaced orderId commitment proof ciphertext =>
    obtain ⟨o, ho⟩ := h
    exact ⟨r.place ev o, by rw [ho]; rfl⟩
  all_goals exact ⟨_, rfl⟩

/-- Replaying the next stretch of the log succeeds and adds its meaning to the projection. -/
theorem replayAll_refines {n : Nat} {events : List Event} (hnum : Numbered n events)
    (hok : ∀ ev ∈ events, Replayable env ev) {r : Replay} (hseq : r.state.book.seq ≤ n) :
    ∃ r', replayAll env r events = .ok r' ∧ r'.state.projection = r.state.projection.applyAll env events ∧
      r'.state.book.seq ≤ n + events.length := by
  induction events generalizing n r with
  | nil => exact ⟨r, rfl, rfl, hseq⟩
  | cons ev events ih =>
    obtain ⟨hev, hrest⟩ := numbered_cons.mp hnum
    obtain ⟨r1, h1⟩ := replayEvent_total (hok ev List.mem_cons_self) r
    obtain ⟨hproj, hs⟩ := replayEvent_refines (by omega) h1
    have hs1 : r1.state.book.seq ≤ n + 1 := hev ▸ hs
    obtain ⟨r2, h2, hproj2, hs2⟩ := ih hrest (fun e he => hok e (List.mem_cons_of_mem ev he)) hs1
    refine ⟨r2, ?_, ?_, ?_⟩
    · unfold replayAll
      rw [List.foldlM_cons, h1]
      exact h2
    · rw [hproj2, hproj]
      rfl
    · rw [List.length_cons]
      omega

/-- The two projections agree on everything but the listed batches. -/
structure Projection.Agrees (p q : Projection) (ids : Set Uuid) : Prop where
  books : p.books = q.books
  pairTokens : ∀ key, p.pairTokens.lookup key = q.pairTokens.lookup key
  auctionLog : p.auctionLog = q.auctionLog
  seenCiphertexts : p.seenCiphertexts = q.seenCiphertexts
  spentNullifiers : p.spentNullifiers = q.spentNullifiers
  spentOrderNonces : p.spentOrderNonces = q.spentOrderNonces
  pending : ∀ b, b ∉ ids → (b ∈ p.pending ↔ b ∈ q.pending)

namespace Projection.Agrees

variable {p q s : Projection} {ids ids' : Set Uuid}

theorem refl (p : Projection) (ids : Set Uuid) : p.Agrees p ids :=
  ⟨rfl, fun _ => rfl, rfl, rfl, rfl, rfl, fun _ _ => Iff.rfl⟩

theorem symm (h : p.Agrees q ids) : q.Agrees p ids :=
  ⟨h.books.symm, fun key => (h.pairTokens key).symm, h.auctionLog.symm, h.seenCiphertexts.symm,
    h.spentNullifiers.symm, h.spentOrderNonces.symm, fun b hb => (h.pending b hb).symm⟩

theorem trans (h : p.Agrees q ids) (h' : q.Agrees s ids) : p.Agrees s ids :=
  ⟨h.books.trans h'.books, fun key => (h.pairTokens key).trans (h'.pairTokens key), h.auctionLog.trans h'.auctionLog,
    h.seenCiphertexts.trans h'.seenCiphertexts, h.spentNullifiers.trans h'.spentNullifiers,
    h.spentOrderNonces.trans h'.spentOrderNonces, fun b hb => (h.pending b hb).trans (h'.pending b hb)⟩

theorem mono (h : p.Agrees q ids) (hsub : ids ⊆ ids') : p.Agrees q ids' :=
  { h with pending := fun b hb => h.pending b (fun hmem => hb (hsub hmem)) }

end Projection.Agrees

/-- Re-aggregating an orphan only adds a batch of its own. -/
theorem reaggregate_agrees {choice : Uuid → OrphanChoice} {rs rs' : Replay × Store} {auctionId : Uuid}
    (h : reaggregate choice rs auctionId = .ok rs') :
    rs'.1.state.projection.Agrees rs.1.state.projection {(choice auctionId).batchId} := by
  obtain ⟨r, store⟩ := rs
  unfold reaggregate at h
  simp only at h
  split at h
  next => exact Except.ok.inj h ▸ Projection.Agrees.refl _ _
  next proof hproof =>
    obtain ⟨⟨store', events⟩, ha, h⟩ := bind_eq_ok.mp h
    obtain ⟨-, hev, -⟩ := appendEvents_eq_ok.mp ha
    cases Except.ok.inj h
    have hbooks : (r.state.book.applyAll events).books = r.state.book.books := by
      rw [hev]
      exact OrderBook.books_apply_of_inert (fun books => rfl)
    refine ⟨hbooks, fun _ => rfl, rfl, rfl, rfl, rfl, ?_⟩
    intro b hb
    have hne : b ≠ (choice auctionId).batchId := hb
    simp [Replay.withState, SerializableState.projection, EngineState.withPendingBatches, EngineState.withBook, hne]

/-- The batches recovery creates: one per auction it finds without a batch. -/
def createdBatches (choice : Uuid → OrphanChoice) (auctions : Set Uuid) : Set Uuid :=
  {b | ∃ a ∈ auctions, b = (choice a).batchId}

theorem reaggregateOrphans_agrees {choice : Uuid → OrphanChoice} {r r' : Replay} {store store' : Store}
    (h : reaggregateOrphans choice r store = .ok (r', store')) :
    r'.state.projection.Agrees r.state.projection (createdBatches choice {a | a ∈ orphanIds r}) := by
  have hall : ∀ (ids : List Uuid) (rs : Replay × Store), ids.foldlM (reaggregate choice) rs = .ok (r', store') →
      r'.state.projection.Agrees rs.1.state.projection (createdBatches choice {a | a ∈ ids}) := by
    intro ids
    induction ids with
    | nil =>
      intro rs h
      cases Except.ok.inj h
      exact Projection.Agrees.refl _ _
    | cons a ids ih =>
      intro rs h
      rw [List.foldlM_cons] at h
      obtain ⟨rs1, h1, h⟩ := bind_eq_ok.mp h
      refine ((ih rs1 h).mono ?_).trans ((reaggregate_agrees h1).mono ?_)
      · rintro b ⟨a', ha', rfl⟩
        exact ⟨a', List.mem_cons_of_mem a ha', rfl⟩
      · rintro b rfl
        exact ⟨a, List.mem_cons_self, rfl⟩
  exact hall (orphanIds r) (r, store) h

theorem mem_orphanIds {r : Replay} {a : Uuid} : a ∈ orphanIds r ↔ (r.matchesByAuction.lookup a).isSome := by
  rw [orphanIds, List.mem_insertionSort, AList.lookup_isSome]
  exact Iff.rfl

/-- The orphan pass fails only where the store does. -/
theorem reaggregateOrphans_total {choice : Uuid → OrphanChoice} (hok : ∀ a, (choice a).ok = true) (r : Replay)
    (store : Store) : ∃ rs, reaggregateOrphans choice r store = .ok rs := by
  have hstep : ∀ rs a, ∃ rs', reaggregate choice rs a = .ok rs' := by
    rintro ⟨r, store⟩ a
    unfold reaggregate
    simp only
    split
    next => exact ⟨_, rfl⟩
    next => simp [appendEvents, Store.append, hok a, bind, Except.bind, pure, Except.pure]
  have hall : ∀ (ids : List Uuid) (rs : Replay × Store), ∃ rs', ids.foldlM (reaggregate choice) rs = .ok rs' := by
    intro ids
    induction ids with
    | nil => exact fun rs => ⟨rs, rfl⟩
    | cons a ids ih =>
      intro rs
      obtain ⟨rs1, h1⟩ := hstep rs a
      obtain ⟨rs2, h2⟩ := ih rs1
      exact ⟨rs2, by rw [List.foldlM_cons, h1]; exact h2⟩
  exact hall (orphanIds r) (r, store)

end DarkPool
