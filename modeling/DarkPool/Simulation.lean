import DarkPool.StepEffect
import DarkPool.Lib.Transition

namespace DarkPool

/-- A relation between registered configurations that replay cannot tell apart. -/
structure RegistryRel (R : PairConfig → PairConfig → Prop) : Prop where
  refl : ∀ c, R c c
  status : ∀ {c c'}, R c c' → ∀ s, R (c.withStatus s) (c'.withStatus s)

/-- Two registries with the same pairs, related one by one. -/
def Registry (R : PairConfig → PairConfig → Prop) (t t' : Table String PairConfig) : Prop :=
  ∀ key, Option.Rel R (t.lookup key) (t'.lookup key)

section Registry

variable {R : PairConfig → PairConfig → Prop} {t t' : Table String PairConfig}

theorem Registry.refl (hR : RegistryRel R) (t : Table String PairConfig) : Registry R t t := by
  intro key
  cases t.lookup key with
  | none => exact .none
  | some c => exact .some (hR.refl c)

theorem Registry.insert (h : Registry R t t') {c c' : PairConfig} (hc : R c c') (key : String) :
    Registry R (t.insert key c) (t'.insert key c') := by
  intro k
  rw [Table.lookup_insert_eq, Table.lookup_insert_eq]
  split
  next => exact .some hc
  next => exact h k

theorem Registry.flip (h : Registry R t t') : Registry (fun c c' => R c' c) t' t := by
  intro key
  have hrel := h key
  generalize t.lookup key = x at hrel ⊢
  generalize t'.lookup key = y at hrel ⊢
  cases hrel with
  | none => exact .none
  | some hR => exact .some hR

theorem Registry.exists_of_lookup (h : Registry R t t') {key : String} {c : PairConfig} (hc : t.lookup key = some c) :
    ∃ c', t'.lookup key = some c' ∧ R c c' := by
  have hrel := h key
  rw [hc] at hrel
  generalize t'.lookup key = y at hrel ⊢
  cases hrel with
  | some hR => exact ⟨_, rfl, hR⟩

theorem Registry.isSome (h : Registry R t t') (key : String) : (t.lookup key).isSome = (t'.lookup key).isSome := by
  have hkey := h key
  generalize t.lookup key = x at hkey ⊢
  generalize t'.lookup key = y at hkey ⊢
  cases hkey <;> rfl

theorem Registry.lookup_eq (h : Registry Eq t t') (key : String) : t.lookup key = t'.lookup key := by
  have hkey := h key
  generalize t.lookup key = x at hkey ⊢
  generalize t'.lookup key = y at hkey ⊢
  cases hkey with
  | none => rfl
  | some hc => rw [hc]

theorem Registry.orDefault (hR : RegistryRel R) (h : Registry R t t') (key : String) :
    Registry R (orDefault t key) (DarkPool.orDefault t' key) := by
  unfold DarkPool.orDefault
  rw [h.isSome key]
  split
  next => exact h
  next => exact h.insert (hR.refl _) key

theorem Registry.modify (hR : RegistryRel R) (h : Registry R t t') (key : String) (s : PairStatus) :
    Registry R (t.modify key (fun c => c.withStatus s)) (t'.modify key (fun c => c.withStatus s)) := by
  intro k
  rw [Table.lookup_modify_eq, Table.lookup_modify_eq]
  split
  next =>
    have hk := h k
    generalize t.lookup k = x at hk ⊢
    generalize t'.lookup k = y at hk ⊢
    cases hk with
    | none => exact .none
    | some hc => exact .some (hR.status hc s)
  next => exact h k

end Registry

/-- The two projections agree on everything but the pending batches. -/
structure Projection.Same (R : PairConfig → PairConfig → Prop) (p q : Projection) : Prop where
  books : p.books = q.books
  registry : Registry R p.pairTokens q.pairTokens
  auctionLog : p.auctionLog = q.auctionLog
  seenCiphertexts : p.seenCiphertexts = q.seenCiphertexts
  spentNullifiers : p.spentNullifiers = q.spentNullifiers
  spentOrderNonces : p.spentOrderNonces = q.spentOrderNonces

def EventData.Submits (data : EventData) (b : Uuid) : Prop :=
  ∃ auctionId txHash count proof, data = .batchSubmitted b auctionId txHash count proof

namespace Projection

variable {env : Env} {R : PairConfig → PairConfig → Prop}

/-- The same event keeps agreeing projections in agreement. -/
theorem Same.apply (hR : RegistryRel R) {p q : Projection} (h : p.Same R q) (ev : Event) :
    (p.apply env ev).Same R (q.apply env ev) := by
  unfold Projection.apply
  cases ev.data with
  | orderPlaced orderId commitment proof ciphertext =>
    dsimp only
    cases replayOrder env ev orderId commitment ciphertext with
    | error e => exact h
    | ok o =>
      exact {
        books := by simp only [place, h.books]
        registry := h.registry.orDefault hR _
        auctionLog := h.auctionLog
        seenCiphertexts := by simp only [place, h.seenCiphertexts]
        spentNullifiers := by simp only [place, h.spentNullifiers]
        spentOrderNonces := by simp only [place, h.spentOrderNonces] }
  | orderCancelled orderId reason => exact { h with books := by simp only [h.books] }
  | orderExpired orderId => exact { h with books := by simp only [h.books] }
  | orderMatched auctionId bid ask price size => exact { h with books := by simp only [h.books] }
  | auctionExecuted auctionId pair price volume count ts => exact { h with auctionLog := by simp only [h.auctionLog] }
  | pairRegistered pair base quote min tick ms bd qd =>
    exact { h with registry := h.registry.insert (hR.refl _) _ }
  | pairSuspended pair => exact { h with registry := h.registry.modify hR _ _ }
  | pairDelisted pair => exact { h with registry := h.registry.modify hR _ _ }
  | batchSubmitted batchId auctionId txHash count proof => exact { h with }
  | batchConfirmed batchId txHash => exact { h with }
  | batchSettled batchId blockNumber txHash => exact { h with }
  | batchFolded batchId round pair root => exact h

theorem Same.applyAll (hR : RegistryRel R) {p q : Projection} (h : p.Same R q) (es : List Event) :
    (p.applyAll env es).Same R (q.applyAll env es) := by
  induction es generalizing p q with
  | nil => exact h
  | cons ev es ih => exact ih (h.apply hR ev)

/-- A batch is pending after an event that submits it, or if it was and the event does not close it. -/
theorem mem_pending_apply (p : Projection) (ev : Event) (b : Uuid) :
    b ∈ (p.apply env ev).pending ↔ ev.data.Submits b ∨ b ∈ p.pending ∧ ¬ ev.data.Closes b := by
  unfold Projection.apply EventData.Submits EventData.Closes
  cases ev.data with
  | orderPlaced orderId commitment proof ciphertext =>
    dsimp only
    cases replayOrder env ev orderId commitment ciphertext <;> simp [place]
  | batchSubmitted batchId auctionId txHash count proof => simp [eq_comm]
  | batchConfirmed batchId txHash => simp [and_comm, eq_comm]
  | batchSettled batchId blockNumber txHash => simp [and_comm, eq_comm]
  | _ => simp [setStatus]

/-- A closing event changes nothing but its batch. -/
theorem Same.closes {p q : Projection} (h : p.Same R q) {ev : Event} {b : Uuid} (hev : ev.data.Closes b) :
    p.Same R (q.apply env ev) := by
  unfold Projection.apply
  rcases hev with ⟨tx, hdata⟩ | ⟨block, tx, hdata⟩
  · rw [hdata]
    exact { h with }
  · rw [hdata]
    exact { h with }

theorem mem_pending_closes (p : Projection) {ev : Event} {b : Uuid} (hev : ev.data.Closes b) (b' : Uuid) :
    b' ∈ (p.apply env ev).pending ↔ b' ∈ p.pending ∧ b' ≠ b := by
  unfold Projection.apply
  rcases hev with ⟨tx, hdata⟩ | ⟨block, tx, hdata⟩
  · simp [hdata, and_comm]
  · simp [hdata, and_comm]

theorem mem_pending_applyAll (p : Projection) {es : List Event} (hes : ∀ ev ∈ es, ∀ b, ¬ ev.data.Closes b) (b : Uuid) :
    b ∈ (p.applyAll env es).pending ↔ (∃ ev ∈ es, ev.data.Submits b) ∨ b ∈ p.pending := by
  induction es generalizing p with
  | nil => simp [Projection.applyAll]
  | cons ev es ih =>
    have hstep : b ∈ (p.apply env ev).pending ↔ ev.data.Submits b ∨ b ∈ p.pending := by
      rw [mem_pending_apply]
      simp [hes ev List.mem_cons_self b]
    rw [show p.applyAll env (ev :: es) = (p.apply env ev).applyAll env es from rfl,
      ih (p.apply env ev) (fun e he => hes e (List.mem_cons_of_mem ev he)), hstep, List.exists_mem_cons_iff]
    exact or_left_comm.trans or_assoc.symm

end Projection

theorem EventData.Routine.not_closes {data : EventData} (h : data.Routine) (b : Uuid) : ¬ data.Closes b := by
  rintro (⟨tx, rfl⟩ | ⟨block, tx, rfl⟩) <;> exact h

theorem EventData.Routine.not_submits {data : EventData} (h : data.Routine) (b : Uuid) : ¬ data.Submits b := by
  rintro ⟨auctionId, tx, count, proof, rfl⟩
  exact h

theorem mem_round {es : List Event} {now : DateTime} {result : AuctionResult}
    (h : es.map Event.data = (auctionEvents now result).map Event.data) {ev : Event} (hev : ev ∈ es) :
    ev.data = (executedEvent now result).data ∨
      ∃ m ∈ result.matchList, ev.data = .orderMatched result.auctionId m.bid m.ask m.price m.size := by
  have hmem : ev.data ∈ (auctionEvents now result).map Event.data := h ▸ List.mem_map_of_mem hev
  obtain ⟨e, he, heq⟩ := List.mem_map.mp hmem
  rw [← heq]
  rcases List.mem_cons.mp he with rfl | he
  · exact Or.inl rfl
  · obtain ⟨m, hm, rfl⟩ := List.mem_map.mp he
    exact Or.inr ⟨m, hm, rfl⟩

namespace World

variable {env : Env} {R : PairConfig → PairConfig → Prop} {dropped : List Event} {w w' : World env} {a : Action}

def log (w : World env) (dropped : List Event) : List Event := dropped ++ w.store.events

/-- The batches that the log has closed and the state has not. -/
def closingIds (w : World env) : List Uuid := w.closing.map Prod.fst

/-- The log is complete and can be replayed, and every closing event under way is in it. `dropped` is
the part that was compacted away. -/
structure Logged (dropped : List Event) (w : World env) : Prop where
  ok : w.Ok
  holds : w.store.Holds dropped
  replayable : ∀ ev ∈ w.log dropped, Replayable env ev
  closing : ∀ c ∈ w.closing, c.2 ∈ w.log dropped

/-- The engine state is what its log means, but for the batches that are being closed. -/
structure Sim (R : PairConfig → PairConfig → Prop) (dropped : List Event) (w : World env) : Prop
    extends Logged dropped w where
  same : w.state.projection.Same R (projectLog env (w.log dropped))
  pending : ∀ b, b ∈ (projectLog env (w.log dropped)).pending ↔ b ∈ w.state.projection.pending ∧ b ∉ w.closingIds

/-- A registration whose configuration survives the log, or a submission of a batch that no closing
event has overtaken. -/
def Sound (R : PairConfig → PairConfig → Prop) (w : World env) (a : Action) : Prop :=
  (∀ config ∈ a.registers, R config config.logged) ∧ ∀ p ∈ w.submits a, p.batchId ∉ w.closingIds

theorem logged_initial (env : Env) : Logged [] (initial env) where
  ok := ok_initial env
  holds := Store.holds_empty
  replayable := by simp [log, initial, Store.empty]
  closing := by simp [World.closing, initial]

theorem sim_initial (hR : RegistryRel R) (env : Env) : Sim R [] (initial env) where
  toLogged := logged_initial env
  same := ⟨rfl, Registry.refl hR _, rfl, rfl, rfl, rfl⟩
  pending b := by simp [closingIds, closing, initial, log, Store.empty, projectLog, Projection.applyAll,
    Projection.empty, EngineState.new]

theorem log_eq {es : List Event} (hlogs : w.store.Logs w'.store es) : w'.log dropped = w.log dropped ++ es := by
  rw [log, log, hlogs.events, List.append_assoc]

theorem projectLog_log {es : List Event} (hlogs : w.store.Logs w'.store es) :
    projectLog env (w'.log dropped) = (projectLog env (w.log dropped)).applyAll env es := by
  rw [log_eq hlogs, projectLog, projectLog, Projection.applyAll_append]

/-- Every section appends some events to the log, and those can be replayed. -/
theorem Effect.logs (h : w.Effect a w') : ∃ es, w.store.Logs w'.store es ∧ ∀ ev ∈ es, Replayable env ev := by
  cases h with
  | routine frame core secrets closing inflight =>
    obtain ⟨es, hcore, -⟩ := core
    exact ⟨es, hcore.logs, hcore.replayable⟩
  | register frame config registers key ev parse absent data logs state secrets closing inflight =>
    refine ⟨[ev], logs, fun e he => ?_⟩
    rw [List.mem_singleton.mp he, Replayable, data]
    trivial
  | place frame p ev fresh used core data timestamp pending secrets closing inflight =>
    exact ⟨[ev], core.logs, core.replayable⟩
  | round frame now auctionId batchIds fresh nodup pair result run pieces es core data pending secrets closing inflight =>
    exact ⟨es, core.logs, core.replayable⟩
  | folds frame p queue root round toSubmit counted ev core data state secrets closing inflight =>
    exact ⟨[ev], core.logs, core.replayable⟩
  | submit frame p rows proof ev submits resolved core data pending secrets closing inflight =>
    exact ⟨[ev], core.logs, core.replayable⟩
  | opens frame b ev closes logs state secrets closing inflight =>
    refine ⟨[ev], logs, fun e he => ?_⟩
    rw [List.mem_singleton.mp he, Replayable]
    rcases closes with ⟨tx, hdata⟩ | ⟨block, tx, hdata⟩ <;> rw [hdata] <;> trivial
  | closes frame b ev store state secrets closing inflight =>
    exact ⟨[], ⟨by rw [store, List.append_nil], numbered_nil _, by rw [store]; rfl⟩, by simp⟩

/-- A batch is being closed because it was, or because the section just logged its closing event. -/
theorem Effect.mem_closing (h : w.Effect a w') {c : Uuid × Event} (hc : c ∈ w'.closing) :
    c ∈ w.closing ∨ w.store.Logs w'.store [c.2] := by
  cases h with
  | routine frame core secrets closing inflight => exact Or.inl (closing.mem_iff.mp hc)
  | register frame config registers key ev parse absent data logs state secrets closing inflight => exact Or.inl (closing ▸ hc)
  | place frame p ev fresh used core data timestamp pending secrets closing inflight =>
    exact Or.inl (closing.mem_iff.mp hc)
  | round frame now auctionId batchIds fresh nodup pair result run pieces es core data pending secrets closing inflight =>
    exact Or.inl (closing ▸ hc)
  | folds frame p queue root round toSubmit counted ev core data state secrets closing inflight =>
    exact Or.inl (closing.mem_iff.mp hc)
  | submit frame p rows proof ev submits resolved core data pending secrets closing inflight =>
    exact Or.inl (closing.mem_iff.mp hc)
  | opens frame b ev closes logs state secrets closing inflight =>
    rcases List.mem_cons.mp (closing.mem_iff.mp hc) with rfl | hc
    · exact Or.inr logs
    · exact Or.inl hc
  | closes frame b ev store state secrets closing inflight =>
    exact Or.inl (closing.mem_iff.mpr (List.mem_cons_of_mem _ hc))

/-- Every section keeps the log in order, whatever the state is. -/
theorem Logged.effect (h : Logged dropped w) (heffect : w.Effect a w') : Logged dropped w' := by
  obtain ⟨es, hlogs, hplay⟩ := heffect.logs
  exact {
    ok := heffect.ok h.ok
    holds := h.holds.logs hlogs
    replayable := by
      rw [log_eq hlogs]
      intro ev hev
      rcases List.mem_append.mp hev with hev | hev
      · exact h.replayable ev hev
      · exact hplay ev hev
    closing := by
      intro c hc
      rcases heffect.mem_closing hc with hc | hnew
      · rw [log_eq hlogs]
        exact List.mem_append_left _ (h.closing c hc)
      · rw [log_eq hnew]
        exact List.mem_append_right _ List.mem_cons_self }

theorem same_commits (hR : RegistryRel R) (hsame : w.state.projection.Same R (projectLog env (w.log dropped)))
    {es : List Event} (core : Commits env w.state w.store w'.state w'.store es) :
    w'.state.projection.Same R (projectLog env (w'.log dropped)) := by
  rw [projectLog_log core.logs, core.projection]
  exact hsame.applyAll hR es

/-- What the registration of a pair means is what the log keeps of its configuration. -/
theorem projectLog_registered {key : String} {config : PairConfig} {ev : Event} (hparse : Pair.parse key = .ok key)
    (hdata : ev.data = registeredData key config) (hlogs : w.store.Logs w'.store [ev]) :
    projectLog env (w'.log dropped) =
      { projectLog env (w.log dropped) with
        pairTokens := (projectLog env (w.log dropped)).pairTokens.insert key config.logged } := by
  rw [projectLog_log hlogs, Projection.applyAll, List.foldl_cons, List.foldl_nil, Projection.apply, hdata]
  simp only [registeredData, canonicaliseReplayedPair_parse hparse]
  rfl

/-- Applying a closing event takes its batch out of the state and does nothing else. -/
theorem projection_closeBatch {st : EngineState} {b : Uuid} {ev : Event} (hev : ev.data.Closes b) :
    (closeBatch st b ev).projection = { st.projection with pending := st.projection.pending.erase b } :=
  Projection.ext (OrderBook.books_apply_of_inert hev.inert) rfl rfl (Table.keySet_erase _ _) rfl rfl rfl

/-- Every section keeps the state to what the log means, the batches that await settlement apart. -/
theorem Effect.same (hR : RegistryRel R) (h : w.Effect a w') (hok : w.Ok)
    (hconfig : ∀ config ∈ a.registers, R config config.logged)
    (hsame : w.state.projection.Same R (projectLog env (w.log dropped))) :
    w'.state.projection.Same R (projectLog env (w'.log dropped)) := by
  cases h with
  | routine frame core secrets closing inflight =>
    obtain ⟨es, hcore, -⟩ := core
    exact same_commits hR hsame hcore
  | register frame config registers key ev parse absent data logs state secrets closing inflight =>
    rw [projectLog_registered parse data logs, state]
    exact { hsame with registry := hsame.registry.insert (hconfig config registers) key }
  | place frame p ev fresh used core data timestamp pending secrets closing inflight => exact same_commits hR hsame core
  | round frame now auctionId batchIds fresh nodup pair result run pieces es core data pending secrets closing inflight =>
    exact same_commits hR hsame core
  | folds frame p queue root round toSubmit counted ev core data state secrets closing inflight =>
    exact same_commits hR hsame core
  | submit frame p rows proof ev submits resolved core data pending secrets closing inflight =>
    exact same_commits hR hsame core
  | opens frame b ev closes logs state secrets closing inflight =>
    rw [projectLog_log logs, state]
    exact hsame.closes closes
  | closes frame b ev store state secrets closing inflight =>
    have hev := (hok.closing (b, ev) (closing.mem_iff.mpr List.mem_cons_self)).1
    rw [log, store, state, projection_closeBatch hev]
    exact { hsame with }

/-- A section that commits its events and closes no batch. -/
theorem Sim.pending_commits (h : Sim R dropped w) {es : List Event}
    (core : Commits env w.state w.store w'.state w'.store es) (hclosing : w'.closing.Perm w.closing)
    (hcloses : ∀ ev ∈ es, ∀ b, ¬ ev.data.Closes b)
    (hsubmits : ∀ ev ∈ es, ∀ b, ev.data.Submits b → b ∉ w.closingIds) (b : Uuid) :
    b ∈ (projectLog env (w'.log dropped)).pending ↔ b ∈ w'.state.projection.pending ∧ b ∉ w'.closingIds := by
  have hids : b ∈ w'.closingIds ↔ b ∈ w.closingIds := (hclosing.map Prod.fst).mem_iff
  rw [projectLog_log core.logs, core.projection, Projection.mem_pending_applyAll _ hcloses,
    Projection.mem_pending_applyAll _ hcloses, h.pending b, hids]
  constructor
  · rintro (⟨ev, hev, hb⟩ | ⟨hb, hfree⟩)
    · exact ⟨Or.inl ⟨ev, hev, hb⟩, hsubmits ev hev b hb⟩
    · exact ⟨Or.inr hb, hfree⟩
  · rintro ⟨hev | hb, hfree⟩
    · exact Or.inl hev
    · exact Or.inr ⟨hb, hfree⟩

/-- The pending batches of the state are those of the log and those that are being closed. -/
theorem Sim.pending_effect (h : Sim R dropped w) (heffect : w.Effect a w')
    (hsubmits : ∀ p ∈ w.submits a, p.batchId ∉ w.closingIds) (b : Uuid) :
    b ∈ (projectLog env (w'.log dropped)).pending ↔ b ∈ w'.state.projection.pending ∧ b ∉ w'.closingIds := by
  cases heffect with
  | routine frame core secrets closing inflight =>
    obtain ⟨es, hcore, hroutine, -⟩ := core
    exact h.pending_commits hcore closing (fun ev hev b => (hroutine ev hev).not_closes b)
      (fun ev hev b hb => absurd hb ((hroutine ev hev).not_submits b)) b
  | register frame config registers key ev parse absent data logs state secrets closing inflight =>
    rw [projectLog_registered parse data logs, closingIds, closing, state]
    exact h.pending b
  | place frame p ev fresh used core data timestamp pending secrets closing inflight =>
    refine h.pending_commits core closing ?_ ?_ b
    · intro e he
      rw [List.mem_singleton.mp he, data]
      simp [EventData.Closes]
    · intro e he
      rw [List.mem_singleton.mp he, data]
      simp [EventData.Submits]
  | round frame now auctionId batchIds fresh nodup pair result run pieces es core data pending secrets closing inflight =>
    refine h.pending_commits core (by rw [closing]) ?_ ?_ b
    · intro e he
      rcases mem_round data he with hd | ⟨m, -, hd⟩
      · simp [hd, EventData.Closes, executedEvent, Event.unsequenced]
      · simp [hd, EventData.Closes]
    · intro e he
      rcases mem_round data he with hd | ⟨m, -, hd⟩
      · simp [hd, EventData.Submits, executedEvent, Event.unsequenced]
      · simp [hd, EventData.Submits]
  | folds frame p queue root round toSubmit counted ev core data state secrets closing inflight =>
    refine h.pending_commits core closing ?_ ?_ b
    · intro e he
      rw [List.mem_singleton.mp he, data]
      simp [EventData.Closes]
    · intro e he
      rw [List.mem_singleton.mp he, data]
      simp [EventData.Submits]
  | submit frame p rows proof ev submits resolved core data pending secrets closing inflight =>
    refine h.pending_commits core closing ?_ ?_ b
    · intro e he
      rw [List.mem_singleton.mp he, data]
      simp [EventData.Closes]
    · rintro e he b ⟨auctionId, tx, count, proof', hd⟩
      rw [List.mem_singleton.mp he, data, EventData.batchSubmitted.injEq] at hd
      rw [← hd.1]
      exact hsubmits p submits
  | opens frame b' ev closes logs state secrets closing inflight =>
    -- The batch counts as being closed from now on.
    have hids : b ∈ w'.closingIds ↔ b = b' ∨ b ∈ w.closingIds :=
      (closing.map Prod.fst).mem_iff.trans List.mem_cons
    have hlog : projectLog env (w'.log dropped) = (projectLog env (w.log dropped)).apply env ev :=
      projectLog_log logs
    rw [hlog, Projection.mem_pending_closes _ closes, h.pending b, hids, state]
    tauto
  | closes frame b' ev store state secrets closing inflight =>
    -- It leaves the state as it left the log.
    have hev := (h.ok.closing (b', ev) (closing.mem_iff.mpr List.mem_cons_self)).1
    have hids : b ∈ w.closingIds ↔ b = b' ∨ b ∈ w'.closingIds :=
      (closing.map Prod.fst).mem_iff.trans List.mem_cons
    rw [log, store, state, projection_closeBatch hev, Finset.mem_erase]
    have hpending := h.pending b
    rw [log, hids] at hpending
    tauto

theorem Sim.step (hR : RegistryRel R) (h : Sim R dropped w) (hsound : w.Sound R a) (hstep : w.step a = some w') :
    Sim R dropped w' where
  toLogged := h.toLogged.effect (step_effect h.ok hstep)
  same := (step_effect h.ok hstep).same hR h.ok hsound.1 h.same
  pending := h.pending_effect (step_effect h.ok hstep) hsound.2

/-- The relation holds along every run of sound sections. -/
theorem Sim.run (hR : RegistryRel R) (h : Sim R dropped w) {as : List Action}
    (hmeets : Transition.Meets World.step (World.Sound R) w as) (hrun : Transition.run World.step w as = some w') :
    Sim R dropped w' :=
  Transition.run_invariant (fun _ _ _ hs hc hstep => hs.step hR hc hstep) h hmeets hrun

end World

end DarkPool
