import DarkPool.FoldLoop
import DarkPool.Settlement
import DarkPool.Ticking

namespace DarkPool

namespace World

variable {env : Env} {w w' : World env} {a : Action}

theorem submits_eq_some {p : PendingAggregation} (h : w.submits a = some p) :
    ∃ i clock ok queue proof rows toSubmit, a = .foldSubmit i clock ok ∧
      w.taskOf a = some (.folding (p :: queue) (.resolved proof rows) toSubmit) := by
  unfold submits at h
  split at h
  next i clock ok =>
    split at h
    next q queue proof rows toSubmit htask =>
      cases Option.some.inj h
      exact ⟨i, clock, ok, queue, proof, rows, toSubmit, rfl, htask⟩
    next => simp at h
  next => simp at h

/-- An aggregation whose batch is submitted leaves the work in flight, whether or not the append succeeds. -/
theorem inflight_submits (hstep : w.step a = some w') {p : PendingAggregation} (hp : w.submits a = some p) :
    w.inflight.Perm (p :: w'.inflight) := by
  obtain ⟨i, clock, ok, queue, proof, rows, toSubmit, rfl, htask⟩ := submits_eq_some hp
  obtain ⟨olds, news, hreplaces, hturn, hown⟩ := step_turns hstep
  have hcollected : w'.collected = w.collected := by rw [collected, collected, step_tick rfl hstep]
  have hgone : ∀ t : Task env, t.inflight = queue →
      w.Replaces w' [.folding (p :: queue) (.resolved proof rows) toSubmit] [t] → w.inflight.Perm (p :: w'.inflight) := by
    intro t ht hreplaces
    obtain ⟨rest, hw, hw'⟩ := hreplaces.flatMap Task.inflight
    rw [List.flatMap_singleton, ht] at hw'
    have hhead : (w.tasks.flatMap Task.inflight).Perm (p :: (queue ++ rest)) := by
      rw [List.flatMap_singleton] at hw
      exact hw
    rw [inflight, inflight, hcollected]
    exact (hhead.append_left _).trans (List.perm_middle.trans ((hw'.symm.append_left _).cons p))
  cases hturn with
  | outside own before after => exact (own _ htask).elim
  | advances advance =>
    cases Option.some.inj (htask.symm.trans (hown _ List.mem_cons_self))
    cases advance
    exact hgone _ rfl hreplaces
  | abandons abandon =>
    cases Option.some.inj (htask.symm.trans (hown _ List.mem_cons_self))
    exact hgone _ rfl hreplaces

theorem map_batchId_aggregations {now : DateTime} {result : AuctionResult} {orders : Table Uuid Order}
    {admitted batchIds : List Uuid} (h : batchIds.length = (result.matchList.pieces engineBatchSize).length) :
    (aggregations now result orders admitted batchIds).map PendingAggregation.batchId = batchIds := by
  rw [aggregations, List.map_map]
  exact List.map_fst_zip h.le

theorem subperm_batchIds {xs ys : List PendingAggregation} (h : xs.Subperm ys) (made : List Uuid) :
    (made ++ xs.map PendingAggregation.batchId).Subperm (made ++ ys.map PendingAggregation.batchId) := by
  obtain ⟨l, hperm, hsub⟩ := h
  exact ⟨made ++ l.map PendingAggregation.batchId, (hperm.map _).append_left made, (hsub.map _).append_left made⟩

theorem nodup_of_subperm {xs ys : List Uuid} (h : xs.Subperm ys) (hys : ys.Nodup) : xs.Nodup := by
  obtain ⟨l, hperm, hsub⟩ := h
  exact hperm.nodup_iff.mp (hys.sublist hsub)

/-- The ids of the batches that were made and of those in flight are drawn, and apart. -/
def Apart (w : World env) (made : List Uuid) : Prop :=
  (made ++ w.inflight.map PendingAggregation.batchId).Nodup ∧
    ∀ b ∈ made ++ w.inflight.map PendingAggregation.batchId, w.Used b

theorem Apart.subperm {made : List Uuid} (h : Apart w made) (frame : Frame w w') (hsub : w'.inflight.Subperm w.inflight) :
    Apart w' made := by
  have hids := subperm_batchIds hsub made
  exact ⟨nodup_of_subperm hids h.1, fun b hb => frame.used b (h.2 b (hids.subset hb))⟩

theorem Apart.effect {made : List Uuid} (h : Apart w made) (heffect : w.Effect a w') : Apart w' made := by
  cases heffect with
  | routine frame core secrets closing inflight => exact h.subperm frame inflight
  | register frame config registers key ev parse absent data logs state secrets closing inflight =>
    exact h.subperm frame (inflight ▸ List.Subperm.refl _)
  | place frame p ev fresh used core data timestamp pending secrets closing inflight =>
    exact h.subperm frame inflight.subperm
  | round frame now auctionId batchIds fresh nodup pair result run pieces es core data pending secrets closing inflight =>
    have hids := inflight.map PendingAggregation.batchId
    rw [List.map_append, map_batchId_aggregations pieces] at hids
    have hall : (made ++ w'.inflight.map PendingAggregation.batchId).Perm
        ((made ++ w.inflight.map PendingAggregation.batchId) ++ batchIds) := by
      rw [List.append_assoc]
      exact hids.append_left made
    refine ⟨hall.nodup_iff.mpr (h.1.append (List.nodup_cons.mp nodup).2 ?_), fun b hb => ?_⟩
    · intro b hb hnew
      exact (fresh b (List.mem_cons_of_mem _ hnew)).1 (h.2 b hb)
    · rcases List.mem_append.mp (hall.mem_iff.mp hb) with hb | hb
      · exact frame.used b (h.2 b hb)
      · exact (fresh b (List.mem_cons_of_mem _ hb)).2
  | folds frame p queue root round toSubmit counted ev core data state secrets closing inflight =>
    exact h.subperm frame inflight
  | submit frame p rows proof ev submits resolved core data pending secrets closing inflight =>
    exact h.subperm frame ((List.sublist_cons_self p w'.inflight).subperm.trans inflight.symm.subperm)
  | opens frame b ev closes logs state secrets closing inflight => exact h.subperm frame inflight.subperm
  | closes frame b ev store state secrets closing inflight => exact h.subperm frame inflight.subperm

/-- A pending batch settles what it settled, or the section has just submitted it. -/
theorem Effect.row (h : w.Effect a w') {b : Uuid} {row : BatchRow} (hrow : w'.state.row b = some row) :
    w.state.row b = some row ∨ ∃ p rows, w.submits a = some p ∧ b = p.batchId ∧ (p, rows) ∈ w.resolved ∧
      row = ⟨p.auctionId, p.matchList, rows⟩ := by
  cases h with
  | routine frame core secrets closing inflight =>
    obtain ⟨es, -, -, hrows, -⟩ := core
    exact Or.inl (hrows b ▸ hrow)
  | register frame config registers key ev parse absent data logs state secrets closing inflight =>
    rw [state] at hrow
    exact Or.inl hrow
  | place frame p ev fresh used core data timestamp pending secrets closing inflight =>
    rw [SerializableState.row, pending] at hrow
    exact Or.inl hrow
  | round frame now auctionId batchIds fresh nodup pair result run pieces es core data pending secrets closing inflight =>
    rw [SerializableState.row, pending] at hrow
    exact Or.inl hrow
  | folds frame p queue root round toSubmit counted ev core data state secrets closing inflight =>
    rw [state] at hrow
    exact Or.inl hrow
  | submit frame p rows proof ev submits resolved core data pending secrets closing inflight =>
    rw [SerializableState.row, pending, Table.lookup_insert_eq] at hrow
    split at hrow
    next heq => exact Or.inr ⟨p, rows, submits, heq, resolved, (Option.some.inj hrow).symm⟩
    next => exact Or.inl hrow
  | opens frame b' ev closes logs state secrets closing inflight =>
    rw [state] at hrow
    exact Or.inl hrow
  | closes frame b' ev store state secrets closing inflight =>
    rw [state, row_closeBatch] at hrow
    split at hrow
    next => simp at hrow
    next => exact Or.inl hrow

/-- The id of a batch that is submitted moves to those of the batches made. -/
theorem Apart.step {made : List Uuid} (h : Apart w made) (heffect : w.Effect a w') (hstep : w.step a = some w') :
    Apart w' (made ++ (w.submits a).toList.map PendingAggregation.batchId) := by
  cases hp : w.submits a with
  | none =>
    rw [Option.toList_none, List.map_nil, List.append_nil]
    exact h.effect heffect
  | some p =>
    have hids := (inflight_submits hstep hp).map PendingAggregation.batchId
    have hall : (made ++ [p.batchId] ++ w'.inflight.map PendingAggregation.batchId).Perm
        (made ++ w.inflight.map PendingAggregation.batchId) := by
      rw [List.append_assoc]
      exact hids.symm.append_left made
    exact ⟨hall.nodup_iff.mpr h.1, fun b hb => heffect.frame.used b (h.2 b (hall.mem_iff.mp hb))⟩

end World

end DarkPool
