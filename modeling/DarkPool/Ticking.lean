import DarkPool.StepEffect

namespace DarkPool

namespace EngineState

def HasStatus (st : EngineState) (pair : String) (status : PairStatus) : Prop :=
  ∃ c, st.pairTokens.lookup pair = some c ∧ c.status = status

theorem HasStatus.unique {st : EngineState} {pair : String} {s s' : PairStatus} (h : st.HasStatus pair s)
    (h' : st.HasStatus pair s') : s = s' := by
  obtain ⟨c, hc, rfl⟩ := h
  obtain ⟨c', hc', rfl⟩ := h'
  cases Option.some.inj (hc.symm.trans hc')
  rfl

end EngineState

theorem hasStatus_of_mem_activePairs {st : EngineState} {pair : String} (h : pair ∈ activePairs st) :
    st.HasStatus pair .active := by
  obtain ⟨⟨key, c⟩, hmem, rfl⟩ := List.mem_map.mp ((List.mem_insertionSort _).mp h)
  obtain ⟨hentry, hactive⟩ := List.mem_filter.mp hmem
  refine ⟨c, Table.mem_entries.mp hentry, ?_⟩
  cases hs : c.status <;> simp [PairStatus.isActive, hs] at hactive ⊢

namespace World

variable {env : Env} {w w' : World env} {i : Nat} {task : Task env} {a : Action}

/-- A section that does not need the state lock leaves the state to the tick that may hold it. -/
theorem stepTaskFree_locked (h : w.stepTaskFree i task a = some w') : w'.tick = w.tick ∧ w'.state = w.state := by
  unfold stepTaskFree at h
  repeat' split at h
  all_goals first | cases Option.some.inj h; exact ⟨rfl, rfl⟩ | simp at h

theorem stepFree_locked (h : w.stepFree a = some w') : w'.tick = w.tick ∧ w'.state = w.state := by
  unfold stepFree at h
  repeat' split at h
  all_goals first | cases Option.some.inj h; exact ⟨rfl, rfl⟩ | simp at h

theorem stepTaskLocked_tick (h : w.stepTaskLocked i task a = some w') : w'.tick = w.tick := by
  unfold stepTaskLocked at h
  repeat' split at h
  all_goals first | cases Option.some.inj h; rfl | simp at h

theorem recordRound_pairTokens {st st' : EngineState} {store store' : Store} {now clock : DateTime} {ok : Bool}
    {result : AuctionResult} {batchIds : List Uuid} {pending : List PendingAggregation}
    (h : recordRound st store now clock ok result batchIds = some (st', store', pending)) :
    st'.pairTokens = st.pairTokens := by
  unfold recordRound at h
  simp only at h
  split at h
  next => simp at h
  next =>
    cases Option.some.inj h
    rfl

/-- A tick goes through its pairs and changes none of them. -/
theorem stepTick_locked {t : TickUnderLock} (h : w.stepTick t a = some w') :
    w'.state.pairTokens = w.state.pairTokens ∧ ∀ t', w'.tick = some t' → ∀ pair ∈ t'.pairs, pair ∈ t.pairs := by
  cases a with
  | tickPair auctionId batchIds clock ok =>
    simp only [stepTick] at h
    split at h
    next => simp at h
    next pair pairs hpairs =>
      have hrest : ∀ p ∈ pairs, p ∈ t.pairs := fun p hp => hpairs ▸ List.mem_cons_of_mem _ hp
      split at h
      next =>
        split at h
        next =>
          cases Option.some.inj h
          exact ⟨rfl, fun t' ht' => Option.some.inj ht' ▸ hrest⟩
        next =>
          split at h
          next =>
            split at h
            next =>
              cases Option.some.inj h
              exact ⟨rfl, fun t' ht' => Option.some.inj ht' ▸ hrest⟩
            next hround =>
              cases Option.some.inj h
              exact ⟨recordRound_pairTokens hround, fun t' ht' => Option.some.inj ht' ▸ hrest⟩
          next => simp at h
      next => simp at h
  | tickEnd =>
    simp only [stepTick] at h
    split at h
    next =>
      cases Option.some.inj h
      exact ⟨rfl, by simp [spawn, withTick]⟩
    next => simp at h
  | _ => simp [stepTick] at h

theorem lockedCall_tick (call : Except EngineError (EngineState × Store)) : (w.lockedCall call).tick = w.tick := by
  unfold lockedCall
  split <;> rfl

/-- A tick starts with the active pairs; no other section starts one. -/
theorem stepLocked_tick (h : w.stepLocked a = some w') :
    w'.tick = w.tick ∨ ∃ now, w'.tick = some ⟨now, activePairs w'.state, []⟩ := by
  unfold stepLocked at h
  split at h
  case h_1 | h_2 =>
    cases Option.some.inj h
    exact Or.inl (lockedCall_tick _)
  case h_6 =>
    split at h
    next =>
      cases Option.some.inj h
      exact Or.inr ⟨_, rfl⟩
    next => simp at h
  all_goals
    repeat' split at h
    all_goals first | cases Option.some.inj h; exact Or.inl rfl | simp at h

/-- A section of a call in progress leaves a tick alone. -/
theorem step_tick (ha : a.task = some i) (h : w.step a = some w') : w'.tick = w.tick := by
  unfold World.step at h
  rw [ha] at h
  dsimp only at h
  split at h
  next => simp at h
  next task hi =>
    split at h
    next w1 hfree =>
      cases Option.some.inj h
      exact (stepTaskFree_locked hfree).1
    next =>
      split at h
      next => exact stepTaskLocked_tick h
      next => simp at h

/-- The pairs a tick has yet to go through are active. -/
def Ticking (w : World env) : Prop := ∀ t, w.tick = some t → ∀ pair ∈ t.pairs, w.state.HasStatus pair .active

theorem Ticking.keep (h : Ticking w) (htick : w'.tick = w.tick) (hpairs : w'.state.pairTokens = w.state.pairTokens) :
    Ticking w' := by
  intro t ht pair hpair
  obtain ⟨c, hc, hs⟩ := h t (htick ▸ ht) pair hpair
  exact ⟨c, hpairs ▸ hc, hs⟩

theorem Ticking.step (h : Ticking w) (hstep : w.step a = some w') : Ticking w' := by
  unfold World.step at hstep
  split at hstep
  next i ha =>
    split at hstep
    next => simp at hstep
    next task hi =>
      split at hstep
      next w1 hfree =>
        cases Option.some.inj hstep
        obtain ⟨htick, hstate⟩ := stepTaskFree_locked hfree
        exact h.keep htick (by rw [hstate])
      next =>
        split at hstep
        next hidle =>
          intro t ht
          rw [stepTaskLocked_tick hstep, Option.isNone_iff_eq_none.mp hidle] at ht
          simp at ht
        next => simp at hstep
  next =>
    split at hstep
    next w1 hfree =>
      cases Option.some.inj hstep
      obtain ⟨htick, hstate⟩ := stepFree_locked hfree
      exact h.keep htick (by rw [hstate])
    next =>
      split at hstep
      next t ht =>
        obtain ⟨hpairs, hsub⟩ := stepTick_locked hstep
        intro t' ht' pair hpair
        obtain ⟨c, hc, hs⟩ := h t ht pair (hsub t' ht' pair hpair)
        exact ⟨c, hpairs ▸ hc, hs⟩
      next ht =>
        intro t ht' pair hpair
        rcases stepLocked_tick hstep with hsame | ⟨now, hstart⟩
        · rw [hsame, ht] at ht'
          simp at ht'
        · cases Option.some.inj (hstart.symm.trans ht')
          exact hasStatus_of_mem_activePairs hpair

end World

end DarkPool
