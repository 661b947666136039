import DarkPool.Settlement

namespace DarkPool

variable {env : Env} {r : Replay} {store : Store} {choice : Uuid → OrphanChoice}

/-- The matches of the auction are taken. -/
def Replay.forget (r : Replay) (a : Uuid) : Replay := { r with matchesByAuction := r.matchesByAuction.erase a }

/-- A batch of what is remembered of the auction joins the pending ones. -/
def Replay.withNewBatch (r : Replay) (b a : Uuid) (proof : Bytes) (book : OrderBook) : Replay :=
  (r.forget a).withState ((r.state.withBook book).withPendingBatches (r.state.pendingBatches.insert b
    (newPendingBatch b a (r.newRow a).matchList (r.newRow a).settlementMatches proof)))

theorem row_withNewBatch (b a : Uuid) (proof : Bytes) (book : OrderBook) (b' : Uuid) :
    (r.withNewBatch b a proof book).state.row b' = if b' = b then some (r.newRow a) else r.state.row b' :=
  row_withPendingBatches_insert (r.state.withBook book) b _ b'

/-- The batch an event submits. -/
def EventData.submittedBatch : EventData → Option Uuid
  | .batchSubmitted batchId _ _ _ _ => some batchId
  | _ => none

theorem EventData.submittedBatch_eq_some {data : EventData} {b : Uuid} : data.submittedBatch = some b ↔ data.Submits b := by
  unfold submittedBatch Submits
  cases data <;> simp

/-- The event recovery logs for an orphan. -/
def EventData.Rescues (data : EventData) (choice : Uuid → OrphanChoice) (a : Uuid) : Prop :=
  ∃ count proof, data = .batchSubmitted (choice a).batchId a "" count proof

theorem EventData.Rescues.submits {data : EventData} {a : Uuid} (h : data.Rescues choice a) :
    data.Submits (choice a).batchId := by
  obtain ⟨count, proof, hd⟩ := h
  exact ⟨a, "", count, proof, hd⟩

/-- Re-aggregation takes the matches of the auction, and makes a batch of them if there is a proof. -/
theorem reaggregate_cases {a : Uuid} {rs : Replay × Store} (h : reaggregate choice (r, store) a = .ok rs) :
    ((choice a).proof = none ∧ rs = (r.forget a, store)) ∨
      ∃ proof ev, (choice a).proof = some proof ∧ store.Logs rs.2 [ev] ∧ ev.data.Rescues choice a ∧
        rs.1 = r.withNewBatch (choice a).batchId a proof (r.state.book.apply ev) := by
  unfold reaggregate at h
  simp only at h
  split at h
  next hnone =>
    cases Except.ok.inj h
    exact Or.inl ⟨hnone, rfl⟩
  next proof hproof =>
    obtain ⟨⟨s1, es⟩, ha, h⟩ := bind_eq_ok.mp h
    obtain ⟨-, hes, -⟩ := appendEvents_eq_ok.mp ha
    cases Except.ok.inj h
    rw [show es = [_] from hes] at ha ⊢
    obtain ⟨hlogs, hdata⟩ := logs_event ha
    exact Or.inr ⟨proof, _, hproof, hlogs, ⟨_, _, hdata⟩, rfl⟩

theorem EventData.Rescues.replayable {ev : Event} {a : Uuid} (h : ev.data.Rescues choice a) : Replayable env ev := by
  obtain ⟨count, proof, hd⟩ := h
  rw [Replayable, hd]
  trivial

/-- Re-aggregating an orphan commits the submission of its batch. -/
theorem withNewBatch_commits {store' : Store} {ev : Event} {a : Uuid} (hlogs : store.Logs store' [ev])
    (hev : ev.data.Rescues choice a) (hbook : r.state.book.seq ≤ store.seq) (proof : Bytes) :
    Commits env r.state store (r.withNewBatch (choice a).batchId a proof (r.state.book.apply ev)).state store' [ev] where
  logs := hlogs
  replayable e he := List.mem_singleton.mp he ▸ hev.replayable
  projection := by
    obtain ⟨count, proof', hd⟩ := hev
    have hinert : (r.state.book.apply ev).books = r.state.book.books :=
      OrderBook.books_apply_of_inert (fun books => by rw [hd]; rfl)
    rw [Projection.applyAll, List.foldl_cons, List.foldl_nil, Projection.apply, hd]
    exact Projection.ext hinert rfl rfl (Table.keySet_insert _ _ _) rfl rfl rfl
  book := by
    refine (OrderBook.seq_apply_le r.state.book ev).trans (max_le ?_ ?_)
    · rw [hlogs.seq]
      omega
    · rw [hlogs.seq, (numbered_cons.mp hlogs.numbered).1]
      rfl

theorem Store.Logs.append {store store' store'' : Store} {es es' : List Event} (h : store.Logs store' es)
    (h' : store'.Logs store'' es') : store.Logs store'' (es ++ es') where
  events := by rw [h'.events, h.events, List.append_assoc]
  numbered := numbered_append.mpr ⟨h.numbered, h.seq ▸ h'.numbered⟩
  seq := by rw [h'.seq, h.seq, List.length_append, Nat.add_assoc]

theorem Commits.append {st st' st'' : EngineState} {store store' store'' : Store} {es es' : List Event}
    (h : Commits env st store st' store' es) (h' : Commits env st' store' st'' store'' es') :
    Commits env st store st'' store'' (es ++ es') where
  logs := h.logs.append h'.logs
  replayable ev hev := (List.mem_append.mp hev).elim (h.replayable ev) (h'.replayable ev)
  projection := by rw [h'.projection, h.projection, Projection.applyAll_append]
  book := h'.book

/-- What replay needs to know of another replay to build the same batches for the auctions. -/
structure Knows (r q : Replay) (ids : List Uuid) : Prop where
  rows : ∀ b, r.state.row b = q.state.row b
  placedOrders : r.placedOrders = q.placedOrders
  pairTokens : r.state.pairTokens = q.state.pairTokens
  found : ∀ a ∈ ids, r.matchesByAuction.lookup a = q.matchesByAuction.lookup a

theorem Knows.newRow_eq {q : Replay} {ids : List Uuid} (h : Knows r q ids) {a : Uuid} (ha : a ∈ ids) :
    r.newRow a = q.newRow a := by
  unfold Replay.newRow
  rw [h.found a ha, h.placedOrders, h.pairTokens]

/-- Replaying the event that recovery logged for an orphan builds the batch that recovery built. -/
theorem Knows.rescue {q q' : Replay} {a : Uuid} {ids : List Uuid} (h : Knows r q (a :: ids)) (ha : a ∉ ids) {ev : Event}
    (hev : ev.data.Rescues choice a) (hnew : q.state.row (choice a).batchId = none)
    (hq : replayEvent env q ev = .ok q') (proof : Bytes) (book : OrderBook) :
    Knows (r.withNewBatch (choice a).batchId a proof book) q' ids := by
  obtain ⟨count, proof', hd⟩ := hev
  simp only [replayEvent, hd, Except.ok.injEq] at hq
  have hkeep : q'.placedOrders = q.placedOrders ∧ q'.state.pairTokens = q.state.pairTokens ∧
      q'.matchesByAuction = q.matchesByAuction.erase a := by
    rw [← hq]
    unfold Replay.submit
    simp only
    split <;> exact ⟨rfl, rfl, rfl⟩
  refine ⟨fun b => ?_, ?_, ?_, ?_⟩
  · rw [row_withNewBatch, ← hq, row_submit, h.newRow_eq List.mem_cons_self, h.rows]
    simp only [hnew, and_true]
  · rw [hkeep.1]
    exact h.placedOrders
  · rw [hkeep.2.1]
    exact h.pairTokens
  · intro a' ha'
    have hne : a' ≠ a := fun heq => ha (heq ▸ ha')
    rw [hkeep.2.2, Table.lookup_erase_eq, if_neg hne, ← h.found a' (List.mem_cons_of_mem a ha')]
    simp only [Replay.withNewBatch, Replay.withState, Replay.forget, Table.lookup_erase_eq, if_neg hne]

theorem Knows.forget {q : Replay} {a : Uuid} {ids : List Uuid} (h : Knows r q (a :: ids)) (ha : a ∉ ids) :
    Knows (r.forget a) q ids := by
  refine ⟨h.rows, h.placedOrders, h.pairTokens, fun a' ha' => ?_⟩
  have hne : a' ≠ a := fun heq => ha (heq ▸ ha')
  rw [← h.found a' (List.mem_cons_of_mem a ha')]
  simp only [Replay.forget, Table.lookup_erase_eq, if_neg hne]

/-- The orphan pass commits its submissions, and replaying them builds the batches it built. -/
theorem sweep {ids : List Uuid} (hnodup : ids.Nodup) {rs : Replay × Store}
    (h : ids.foldlM (reaggregate choice) (r, store) = .ok rs) (hbook : r.state.book.seq ≤ store.seq) :
    ∃ es, Commits env r.state store rs.1.state rs.2 es ∧ (∀ ev ∈ es, ∃ a ∈ ids, ev.data.Rescues choice a) ∧
      ∀ q q', Knows r q ids → (∀ ev ∈ es, ∀ b, ev.data.Submits b → q.state.row b = none) →
        (es.filterMap (fun ev => ev.data.submittedBatch)).Nodup → replayAll env q es = .ok q' →
        ∀ b, rs.1.state.row b = q'.state.row b := by
  induction ids generalizing r store with
  | nil =>
    cases Except.ok.inj h
    refine ⟨[], commits_quiet rfl hbook, by simp, ?_⟩
    intro q q' hknows _ _ hq b
    cases Except.ok.inj hq
    exact hknows.rows b
  | cons a ids ih =>
    rw [List.foldlM_cons] at h
    obtain ⟨⟨r1, s1⟩, h1, hrest⟩ := bind_eq_ok.mp h
    obtain ⟨ha, hids⟩ := List.nodup_cons.mp hnodup
    rcases reaggregate_cases h1 with ⟨-, hr1⟩ | ⟨proof, ev, -, hlogs, hev, hr1⟩
    · obtain ⟨rfl, rfl⟩ := Prod.mk.inj hr1
      obtain ⟨es, hcommits, hes, hrows⟩ := ih hids hrest hbook
      refine ⟨es, hcommits, fun ev hev => ?_, ?_⟩
      · obtain ⟨a', ha', hres⟩ := hes ev hev
        exact ⟨a', List.mem_cons_of_mem a ha', hres⟩
      · exact fun q q' hknows => hrows q q' (hknows.forget ha)
    · have hcommits1 := @withNewBatch_commits env r store choice s1 ev a hlogs hev hbook proof
      rw [show r1 = _ from hr1] at hrest
      obtain ⟨es, hcommits, hes, hrows⟩ := ih hids hrest hcommits1.book
      refine ⟨ev :: es, hcommits1.append hcommits, ?_, ?_⟩
      · intro e he
        rcases List.mem_cons.mp he with rfl | he
        · exact ⟨a, List.mem_cons_self, hev⟩
        · obtain ⟨a', ha', hres⟩ := hes e he
          exact ⟨a', List.mem_cons_of_mem a ha', hres⟩
      · intro q q' hknows hnew hdrawn hq
        have hsub := hev.submits
        rw [List.filterMap_cons, EventData.submittedBatch_eq_some.mpr hsub, List.nodup_cons] at hdrawn
        unfold replayAll at hq
        rw [List.foldlM_cons] at hq
        obtain ⟨q1, hq1, hq⟩ := bind_eq_ok.mp hq
        have hnone := hnew ev List.mem_cons_self _ hsub
        have hknows1 := hknows.rescue ha hev hnone hq1 proof (r.state.book.apply ev)
        refine hrows q1 q' hknows1 ?_ hdrawn.2 hq
        -- A batch drawn later is none of those the replay has, nor the one it just built.
        intro e he b hb
        have hne : b ≠ (choice a).batchId := by
          rintro rfl
          exact hdrawn.1 (List.mem_filterMap.mpr ⟨e, he, EventData.submittedBatch_eq_some.mpr hb⟩)
        rw [← hknows1.rows b, row_withNewBatch, if_neg hne, hknows.rows]
        exact hnew e (List.mem_cons_of_mem ev he) b hb

end DarkPool
