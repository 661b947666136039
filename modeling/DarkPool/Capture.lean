import DarkPool.Converge

namespace DarkPool

/-- No batch is submitted after an event that closed it. -/
def SubmittedFirst (log : List Event) : Prop :=
  log.Pairwise (fun e e' => ∀ b, e.data.Closes b → ¬ e'.data.Submits b)

namespace Projection

variable {env : Env}

end Projection

section Restore

variable {env : Env} {engine : EngineState} {ivcRound : Table String Nat} {store : Store} {choice : Uuid → OrphanChoice}
  {decodes : Nat → Bool}

end Restore

/-- What a snapshot and its watermark have to be to stand for the log. -/
structure Exact (env : Env) (log : List Event) (snap : SerializableState) (seq : Nat) : Prop where
  le_length : seq ≤ log.length
  book : snap.book.seq ≤ seq
  projection : snap.projection.Agrees (projectLog env (log.take seq)) ∅

namespace World

variable {env : Env} {w w' : World env} {a : Action}

/-- `capture_snapshot_state`; it holds the state lock. -/
def captureSnapshotState (w : World env) : SerializableState × Nat := (w.state.toSerializable, w.store.lastSeq)

/-- A registration that survives the log, or a submission of a batch that the log has not closed. -/
def Ordered (w : World env) (a : Action) : Prop :=
  (∀ config ∈ a.registers, config.Loggable) ∧
    ∀ p ∈ w.submits a, ∀ ev ∈ w.store.events, ¬ ev.data.Closes p.batchId

instance (w : World env) (a : Action) : Decidable (w.Ordered a) := inferInstanceAs (Decidable (_ ∧ _))

/-- The relation of the last section, and that the log submits no batch it has closed. -/
structure Orderly (w : World env) : Prop where
  sim : Sim Eq [] w
  first : SubmittedFirst w.store.events

theorem Effect.submitting (h : w.Effect a w') : ∃ es, w.store.Logs w'.store es ∧
    ((∀ ev ∈ es, ∀ b, ¬ ev.data.Submits b) ∨
      ∃ p ev, w.submits a = some p ∧ es = [ev] ∧ ∀ b, ev.data.Submits b → b = p.batchId) := by
  cases h with
  | routine frame core secrets closing inflight =>
    obtain ⟨es, hcore, hroutine, -⟩ := core
    exact ⟨es, hcore.logs, Or.inl (fun ev hev b => (hroutine ev hev).not_submits b)⟩
  | register frame config registers key ev parse absent data logs state secrets closing inflight =>
    refine ⟨[ev], logs, Or.inl (fun e he b => ?_)⟩
    rw [List.mem_singleton.mp he, data]
    simp [EventData.Submits, registeredData]
  | place frame p ev fresh used core data timestamp pending secrets closing inflight =>
    refine ⟨[ev], core.logs, Or.inl (fun e he b => ?_)⟩
    rw [List.mem_singleton.mp he, data]
    simp [EventData.Submits]
  | round frame now auctionId batchIds fresh nodup pair result run pieces es core data pending secrets closing inflight =>
    refine ⟨es, core.logs, Or.inl (fun e he b => ?_)⟩
    rcases mem_round data he with hd | ⟨m, -, hd⟩
    · simp [hd, EventData.Submits, executedEvent, Event.unsequenced]
    · simp [hd, EventData.Submits]
  | folds frame p queue root round toSubmit counted ev core data state secrets closing inflight =>
    refine ⟨[ev], core.logs, Or.inl (fun e he b => ?_)⟩
    rw [List.mem_singleton.mp he, data]
    simp [EventData.Submits]
  | submit frame p rows proof ev submits resolved core data pending secrets closing inflight =>
    refine ⟨[ev], core.logs, Or.inr ⟨p, ev, submits, rfl, ?_⟩⟩
    rintro b ⟨auctionId, tx, count, proof', hd⟩
    rw [data, EventData.batchSubmitted.injEq] at hd
    exact hd.1.symm
  | opens frame b ev closes logs state secrets closing inflight =>
    refine ⟨[ev], logs, Or.inl (fun e he b' => ?_)⟩
    rw [List.mem_singleton.mp he]
    rcases closes with ⟨tx, hd⟩ | ⟨block, tx, hd⟩ <;> simp [hd, EventData.Submits]
  | closes frame b ev store state secrets closing inflight =>
    exact ⟨[], ⟨by rw [store, List.append_nil], numbered_nil _, by rw [store]; rfl⟩, Or.inl (by simp)⟩

theorem Ordered.regular (hlogged : Logged [] w) (h : w.Ordered a) : w.Regular a := by
  refine ⟨h.1, fun p hp hmem => ?_⟩
  -- A closing event under way is in the log already.
  obtain ⟨⟨b, ev⟩, hc, rfl⟩ := List.mem_map.mp hmem
  exact h.2 p hp ev (hlogged.closing _ hc) (hlogged.ok.closing _ hc).1

theorem Orderly.step (h : Orderly w) (hordered : w.Ordered a) (hstep : w.step a = some w') : Orderly w' where
  sim := h.sim.step registryRel_eq (hordered.regular h.sim.toLogged).sound hstep
  first := by
    obtain ⟨es, hlogs, hes⟩ := (step_effect h.sim.ok hstep).submitting
    rw [hlogs.events]
    rcases hes with hnone | ⟨p, ev, hsubmits, rfl, hev⟩
    · refine List.pairwise_append.mpr ⟨h.first, ?_, ?_⟩
      · exact List.pairwise_of_forall_mem_list (fun _ _ e' he' b _ => hnone e' he' b)
      · exact fun _ _ e' he' b _ => hnone e' he' b
    · refine List.pairwise_append.mpr ⟨h.first, List.pairwise_singleton _ _, ?_⟩
      intro e he e' he' b hb hsub
      rw [List.mem_singleton.mp he'] at hsub
      exact hordered.2 p hsubmits e he (hev b hsub ▸ hb)

theorem Orderly.run (h : Orderly w) {as : List Action} (hmeets : Transition.Meets World.step Ordered w as)
    (hrun : Transition.run World.step w as = some w') : Orderly w' :=
  Transition.run_invariant (fun _ _ _ hs hc hstep => hs.step hc hstep) h hmeets hrun

end World

namespace Scenario

/-- The batch is submitted and its transaction sent. -/
def submitting : List Action :=
  [.foldSubmit 0 0 true, .foldPayload 0, .foldEnd 0, .submitStart 0, .submitCall 0 (some "0x")]

end Scenario

end DarkPool
