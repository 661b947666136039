import DarkPool.Reaggregate

namespace DarkPool

/-- Two replays that will build the same batches from the same events. -/
structure Twin (r r' : Replay) : Prop where
  registry : Registry SameTokens r.state.pairTokens r'.state.pairTokens
  rows : ∀ b, r.state.row b = r'.state.row b
  found : ∀ a, r.matchesByAuction.lookup a = r'.matchesByAuction.lookup a
  placed : ∀ a, ∀ ms ∈ r.matchesByAuction.lookup a, ∀ m ∈ ms, AgreeOn r.placedOrders r'.placedOrders m

variable {env : Env} {r r' r1 r1' : Replay}

theorem AgreeOn.insert {t t' : Table Uuid Order} {m : Match} (h : AgreeOn t t' m) (k : Uuid) (o : Order) :
    AgreeOn (t.insert k o) (t'.insert k o) m := ⟨h.1.insert k o, h.2.insert k o⟩

theorem AgreeOn.listPlaced {t t' : Table Uuid Order} {m : Match} (h : AgreeOn t t' m) (ev : Event) :
    AgreeOn (listPlaced env t ev) (DarkPool.listPlaced env t' ev) m := by
  unfold DarkPool.listPlaced
  split
  next id c proof ct hdata =>
    cases replayOrder env ev id c ct with
    | ok o => exact h.insert o.order.id o.order
    | error e => exact h
  next => exact h

namespace Twin

theorem matchList_eq (h : Twin r r') (a : Uuid) :
    (r.matchesByAuction.lookup a).getD [] = (r'.matchesByAuction.lookup a).getD [] := by rw [h.found a]

/-- The twins would put the same in a new batch. -/
theorem newRow_eq (h : Twin r r') (a : Uuid) : r.newRow a = r'.newRow a := by
  have hms : ∀ m ∈ (r.matchesByAuction.lookup a).getD [], AgreeOn r.placedOrders r'.placedOrders m := by
    intro m hm
    cases hms : r.matchesByAuction.lookup a with
    | none => simp [hms] at hm
    | some ms =>
      rw [hms, Option.getD_some] at hm
      exact h.placed a ms hms m hm
  unfold Replay.newRow
  simp only [← h.matchList_eq a, buildRecoverySettlementMatches_congr hms h.registry]

theorem event (h : Twin r r') {ev : Event}
    (hm : ∀ a m, ev.data.matched = some (a, m) → AgreeOn r.placedOrders r'.placedOrders m)
    (h1 : replayEvent env r ev = .ok r1) (h1' : replayEvent env r' ev = .ok r1') : Twin r1 r1' := by
  cases hdata : ev.data with
  | orderPlaced orderId commitment proof ciphertext =>
    obtain ⟨o, ho, rfl⟩ := replayEvent_placed hdata h1
    obtain ⟨o', ho', rfl⟩ := replayEvent_placed hdata h1'
    cases Except.ok.inj (ho.symm.trans ho')
    exact {
      registry := h.registry.orDefault registryRel_sameTokens _
      rows := h.rows
      found := h.found
      placed := fun a ms hms m hm => (h.placed a ms hms m hm).insert _ _ }
  | orderMatched auctionId bid ask price size =>
    simp only [replayEvent, hdata, Except.ok.injEq] at h1 h1'
    have hnew := hm auctionId ⟨bid, ask, price, size⟩ (by rw [hdata]; rfl)
    subst h1 h1'
    refine ⟨h.registry, h.rows, ?_, ?_⟩
    · intro a
      simp only [Table.lookup_insert_eq, h.found]
    · intro a ms hms m hmem
      simp only [Table.lookup_insert_eq] at hms
      split at hms
      next =>
        rw [← Option.some.inj hms] at hmem
        rcases List.mem_append.mp hmem with hmem | hmem
        · cases hknown : r.matchesByAuction.lookup auctionId with
          | none => simp [hknown] at hmem
          | some known =>
            rw [hknown, Option.getD_some] at hmem
            exact h.placed auctionId known hknown m hmem
        · rw [List.mem_singleton.mp hmem]
          exact hnew
      next => exact h.placed a ms hms m hmem
  | batchSubmitted batchId auctionId txHash count proof =>
    simp only [replayEvent, hdata, Except.ok.injEq] at h1 h1'
    have hkeep : ∀ q : Replay, (q.submit ev batchId auctionId proof).matchesByAuction =
          q.matchesByAuction.erase auctionId ∧
        (q.submit ev batchId auctionId proof).placedOrders = q.placedOrders ∧
        (q.submit ev batchId auctionId proof).state.pairTokens = q.state.pairTokens := by
      intro q
      unfold Replay.submit
      simp only
      split <;> exact ⟨rfl, rfl, rfl⟩
    subst h1 h1'
    refine ⟨?_, ?_, ?_, ?_⟩
    · rw [(hkeep r).2.2, (hkeep r').2.2]
      exact h.registry
    · intro b
      rw [row_submit, row_submit, h.rows, h.rows, h.newRow_eq]
    · intro a
      rw [(hkeep r).1, (hkeep r').1, Table.lookup_erase_eq, Table.lookup_erase_eq, h.found]
    · intro a ms hms m hmem
      rw [(hkeep r).1, Table.lookup_erase_eq] at hms
      rw [(hkeep r).2.1, (hkeep r').2.1]
      split at hms
      next => simp at hms
      next => exact h.placed a ms hms m hmem
  | batchConfirmed batchId txHash =>
    simp only [replayEvent, hdata, Except.ok.injEq] at h1 h1'
    subst h1 h1'
    refine ⟨h.registry, fun b => ?_, h.found, h.placed⟩
    simp only [Replay.withState, row_closeBatch, h.rows]
  | batchSettled batchId blockNumber txHash =>
    simp only [replayEvent, hdata, Except.ok.injEq] at h1 h1'
    subst h1 h1'
    refine ⟨h.registry, fun b => ?_, h.found, h.placed⟩
    simp only [Replay.withState, row_closeBatch, h.rows]
  | pairRegistered pair base quote min tick ms bd qd =>
    simp only [replayEvent, hdata, Except.ok.injEq] at h1 h1'
    subst h1 h1'
    exact ⟨h.registry.insert ⟨rfl, rfl⟩ _, h.rows, h.found, h.placed⟩
  | pairSuspended pair =>
    simp only [replayEvent, hdata, Except.ok.injEq] at h1 h1'
    subst h1 h1'
    exact ⟨h.registry.modify registryRel_sameTokens _ _, h.rows, h.found, h.placed⟩
  | pairDelisted pair =>
    simp only [replayEvent, hdata, Except.ok.injEq] at h1 h1'
    subst h1 h1'
    exact ⟨h.registry.modify registryRel_sameTokens _ _, h.rows, h.found, h.placed⟩
  | _ =>
    simp only [replayEvent, hdata, Except.ok.injEq] at h1 h1'
    subst h1 h1'
    exact ⟨h.registry, h.rows, h.found, h.placed⟩

/-- Twins stay twins along events whose matches are between orders both have. -/
theorem all (h : Twin r r') {es : List Event}
    (hm : ∀ ev ∈ es, ∀ a m, ev.data.matched = some (a, m) → AgreeOn r.placedOrders r'.placedOrders m)
    (h1 : replayAll env r es = .ok r1) (h1' : replayAll env r' es = .ok r1') : Twin r1 r1' := by
  induction es generalizing r r' with
  | nil =>
    cases Except.ok.inj h1
    cases Except.ok.inj h1'
    exact h
  | cons ev es ih =>
    unfold replayAll at h1 h1'
    rw [List.foldlM_cons] at h1 h1'
    obtain ⟨q, hq, h1⟩ := bind_eq_ok.mp h1
    obtain ⟨q', hq', h1'⟩ := bind_eq_ok.mp h1'
    refine ih (h.event (hm ev List.mem_cons_self) hq hq') ?_ h1 h1'
    intro e he a m hem
    rw [replayEvent_placedOrders hq, replayEvent_placedOrders hq']
    exact (hm e (List.mem_cons_of_mem ev he) a m hem).listPlaced ev

theorem orphanIds_eq (h : Twin r r') : orphanIds r = orphanIds r' := by
  have hmem : ∀ a, a ∈ r.matchesByAuction.keys ↔ a ∈ r'.matchesByAuction.keys := by
    intro a
    rw [← AList.mem_keys, ← AList.mem_keys, ← AList.lookup_isSome, ← AList.lookup_isSome, h.found a]
  have hperm : r.matchesByAuction.keys.Perm r'.matchesByAuction.keys :=
    (List.perm_ext_iff_of_nodup r.matchesByAuction.keys_nodup r'.matchesByAuction.keys_nodup).mpr hmem
  have hsorted : (orphanIds r).Perm (orphanIds r') :=
    (List.perm_insertionSort _ _).trans (hperm.trans (List.perm_insertionSort _ _).symm)
  exact hsorted.eq_of_pairwise' (List.pairwise_insertionSort _ _) (List.pairwise_insertionSort _ _)

/-- Both take the auction from what they remember. -/
theorem forget (h : Twin r r') (a : Uuid) : Twin (r.forget a) (r'.forget a) := by
  refine ⟨h.registry, h.rows, fun a' => ?_, fun a' ms hms m hmem => ?_⟩
  · simp only [Replay.forget, Table.lookup_erase_eq, h.found]
  · simp only [Replay.forget, Table.lookup_erase_eq] at hms
    split at hms
    next => simp at hms
    next => exact h.placed a' ms hms m hmem

/-- Re-aggregating an orphan keeps the twins. -/
theorem reaggregate (h : Twin r r') {choice : Uuid → OrphanChoice} {store store' : Store} {a : Uuid}
    {rs rs' : Replay × Store} (h1 : reaggregate choice (r, store) a = .ok rs)
    (h1' : DarkPool.reaggregate choice (r', store') a = .ok rs') : Twin rs.1 rs'.1 := by
  have hforget := h.forget a
  rcases reaggregate_cases h1 with ⟨hnone, rfl⟩ | ⟨proof, ev, hproof, -, -, hr1⟩
  · rcases reaggregate_cases h1' with ⟨-, rfl⟩ | ⟨proof, ev, hproof, -, -, -⟩
    · exact hforget
    · rw [hnone] at hproof
      simp at hproof
  · rcases reaggregate_cases h1' with ⟨hnone, -⟩ | ⟨proof', ev', hproof', -, -, hr1'⟩
    · rw [hnone] at hproof
      simp at hproof
    · rw [hproof, Option.some.injEq] at hproof'
      subst hproof'
      rw [hr1, hr1']
      refine ⟨h.registry, fun b => ?_, hforget.found, hforget.placed⟩
      simp only [row_withNewBatch, h.rows, h.newRow_eq]

/-- So does re-aggregating all of them. -/
theorem reaggregateOrphans (h : Twin r r') {choice : Uuid → OrphanChoice} {store store' : Store}
    {rs rs' : Replay × Store} (h1 : reaggregateOrphans choice r store = .ok rs)
    (h1' : DarkPool.reaggregateOrphans choice r' store' = .ok rs') : Twin rs.1 rs'.1 := by
  unfold DarkPool.reaggregateOrphans at h1 h1'
  rw [← h.orphanIds_eq] at h1'
  generalize orphanIds r = ids at h1 h1'
  induction ids generalizing r r' store store' with
  | nil =>
    cases Except.ok.inj h1
    cases Except.ok.inj h1'
    exact h
  | cons a ids ih =>
    rw [List.foldlM_cons] at h1 h1'
    obtain ⟨⟨q, s⟩, hq, h1⟩ := bind_eq_ok.mp h1
    obtain ⟨⟨q', s'⟩, hq', h1'⟩ := bind_eq_ok.mp h1'
    exact ih (h.reaggregate hq hq') h1 h1'

end Twin

end DarkPool
