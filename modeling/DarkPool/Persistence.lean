import DarkPool.Restart

namespace DarkPool

namespace System

variable {env : Env} {σ σ' : System env} {m : Move}

/-- The log is complete up to what compaction dropped, and the envelopes cover that. -/
structure Kept (σ : System env) : Prop where
  logged : σ.world.Logged σ.dropped
  tail : σ.dropped ≠ [] → σ.world.store.events ≠ []
  covered : σ.dropped ≠ [] → σ.snapshots ≠ []
  envelopes : ∀ e ∈ σ.envelopes, e.2.book.seq ≤ e.1 ∧ e.1 ≤ σ.world.store.seq

theorem Kept.length_log (h : Kept σ) : σ.log.length = σ.world.store.seq := by
  rw [log, World.log, List.length_append, h.logged.holds.2]

theorem Kept.stored (h : Kept σ) : Stored env σ.dropped σ.world.store σ.snapshots where
  holds := h.logged.holds
  replayable := h.logged.replayable
  tail := h.tail
  covered := h.covered
  envelopes := fun e he => h.envelopes e (List.mem_append_right _ he)

theorem kept_initial (env : Env) : Kept (initial env) where
  logged := World.logged_initial env
  tail := fun h => absurd rfl h
  covered := fun h => absurd rfl h
  envelopes := by simp [envelopes, initial]

/-- Everything a move can do to the log, the state and the envelopes. -/
inductive Effect (σ : System env) : Move → System env → Prop
  | op {a : Action} {w' : World env} (step : σ.world.step a = some w') (effect : σ.world.Effect a w') :
      Effect σ (.op a) (σ.withWorld w')
  | capture (idle : σ.world.tick = none) :
      Effect σ .capture (σ.withCaptured (some σ.world.captureSnapshotState.swap))
  | publish {config : SnapshotConfig} {written compacted pruned : Bool} {σ' : System env} (store : Store)
      (world : σ'.world = σ.world.withStore store) (log : σ'.log = σ.log) (holds : store.Holds σ'.dropped)
      (tail : σ'.dropped ≠ [] → store.events ≠ []) (covered : σ'.dropped ≠ [] → σ'.snapshots ≠ [])
      (envelopes : ∀ e ∈ σ'.envelopes, e ∈ σ.envelopes) : Effect σ (.publish config written compacted pruned) σ'
  | restart {decodes : Nat → Bool} {choice : Uuid → OrphanChoice} (out : EngineState × Table String Nat × Store)
      (start : Replay) (seq : Nat) (r : Replay) (es : List Event)
      (recovers : Recovers env σ.dropped σ.world.store σ.snapshots choice out start seq r es)
      (fresh : σ.world.Fresh (drawnIds σ.world.store out.2.2)) :
      Effect σ (.restart decodes choice) ((σ.withCaptured none).withWorld (σ.world.restarted out.1 out.2.1 out.2.2))

theorem retentionSweep_ne_nil {config : SnapshotConfig} {snapshots : Snapshots} (h : snapshots ≠ []) :
    retentionSweep config snapshots ≠ [] := by
  unfold retentionSweep
  split
  next hsweep =>
    -- The envelope whose seq is the floor stays.
    have hlt : snapshots.length - config.retainCount < snapshots.length := by omega
    refine List.ne_nil_of_mem (List.mem_filter.mpr ⟨List.getElem_mem hlt, ?_⟩)
    simp [List.getD_eq_getElem?_getD, List.getElem?_map, List.getElem?_eq_getElem hlt]
  next => exact h

theorem published_ne_nil (σ : System env) (config : SnapshotConfig) (pruned : Bool) (e : Nat × SerializableState) :
    σ.published config pruned e ≠ [] := by
  have hwrite : writeSnapshot σ.snapshots e.1 e.2 ≠ [] := by simp [writeSnapshot]
  unfold published
  simp only
  split
  next => exact retentionSweep_ne_nil hwrite
  next => exact hwrite

theorem publish_effect (h : Kept σ) {config : SnapshotConfig} {written compacted pruned : Bool}
    {e : Nat × SerializableState} (he : σ.captured = some e) :
    σ.Effect (.publish config written compacted pruned) (σ.publish config written compacted pruned e) := by
  have hmem : e ∈ σ.envelopes := List.mem_append_left _ (by simp [he])
  have henv : ∀ e' ∈ σ.published config pruned e, e' ∈ σ.envelopes := by
    intro e' he'
    rcases mem_published he' with rfl | he'
    · exact hmem
    · exact List.mem_append_right _ he'
  unfold publish
  split
  next =>
    simp only
    split
    next =>
      obtain ⟨hholds, hlog⟩ := h.logged.holds.compact (compactFloor config e.1)
      refine .publish _ rfl hlog hholds ?_ (fun _ => published_ne_nil σ config pruned e) henv
      intro hne
      have hfloor : compactFloor config e.1 ≤ σ.world.store.seq := (Nat.sub_le _ _).trans (h.envelopes e hmem).2
      refine h.logged.holds.compact_ne_nil hfloor ?_
      -- Something was dropped, before or now.
      intro hnil
      refine h.tail (fun hdropped => hne ?_) hnil
      simp [compact, withCaptured, withSnapshots, hnil, hdropped]
    next =>
      exact .publish σ.world.store rfl rfl h.logged.holds h.tail (fun _ => published_ne_nil σ config pruned e) henv
  next =>
    exact .publish σ.world.store rfl rfl h.logged.holds h.tail h.covered
      (fun e' he' => List.mem_append_right _ he')

/-- Whatever move is made, its effect is one of the listed ones. -/
theorem step_effect (h : Kept σ) (hstep : σ.step m = some σ') : σ.Effect m σ' := by
  cases m with
  | op a =>
    obtain ⟨w', hw', rfl⟩ := Option.map_eq_some_iff.mp hstep
    exact .op hw' (World.step_effect h.logged.ok hw')
  | capture =>
    simp only [step] at hstep
    split at hstep
    next hidle =>
      cases Option.some.inj hstep
      exact .capture (Option.isNone_iff_eq_none.mp hidle)
    next => simp at hstep
  | publish config written compacted pruned =>
    obtain ⟨e, he, rfl⟩ := Option.map_eq_some_iff.mp hstep
    exact publish_effect h he
  | restart decodes choice =>
    simp only [step, restart] at hstep
    split at hstep
    next => simp at hstep
    next state ivcRound store hout =>
      split at hstep
      next hfresh =>
        cases Option.some.inj hstep
        obtain ⟨start, seq, r, es, hrec⟩ := recover_recovers h.stored rfl hout
        exact .restart _ start seq r es hrec hfresh
      next => simp at hstep

theorem log_withWorld {w' : World env} {es : List Event} (h : σ.world.store.Logs w'.store es) :
    (σ.withWorld w').log = σ.log ++ es := World.log_eq h

theorem log_restarted {store : Store} {es : List Event} (h : σ.world.store.Logs store es) (state : EngineState)
    (ivcRound : Table String Nat) :
    ((σ.withCaptured none).withWorld (σ.world.restarted state ivcRound store)).log = σ.log ++ es := World.log_eq h

/-- Every move only appends to the log. -/
theorem Effect.log (h : σ.Effect m σ') : ∃ es, σ'.log = σ.log ++ es := by
  cases h with
  | op step effect =>
    obtain ⟨es, hlogs, -⟩ := effect.logs
    exact ⟨es, log_withWorld hlogs⟩
  | capture idle => exact ⟨[], (List.append_nil _).symm⟩
  | publish store world log holds tail covered envelopes => exact ⟨[], log.trans (List.append_nil _).symm⟩
  | restart out start seq r es recovers fresh => exact ⟨es, log_restarted recovers.commits.logs _ _⟩

theorem Effect.kept (heffect : σ.Effect m σ') (h : Kept σ) : Kept σ' := by
  cases heffect with
  | op step effect =>
    obtain ⟨es, hlogs, -⟩ := effect.logs
    refine ⟨h.logged.effect effect, fun hne hnil => ?_, h.covered, fun e he => ?_⟩
    · rw [withWorld, hlogs.events] at hnil
      exact h.tail hne (List.append_eq_nil_iff.mp hnil).1
    · exact ⟨(h.envelopes e he).1, (h.envelopes e he).2.trans (hlogs.seq ▸ Nat.le_add_right _ _)⟩
  | capture idle =>
    refine ⟨h.logged, h.tail, h.covered, fun e he => ?_⟩
    rcases List.mem_append.mp he with he | he
    · rw [show e = σ.world.captureSnapshotState.swap by simpa [withCaptured] using he]
      exact ⟨h.logged.ok.book, le_rfl⟩
    · exact h.envelopes e (List.mem_append_right _ he)
  | publish store world log holds tail covered envelopes =>
    have hseq : store.seq = σ.world.store.seq := by
      have hlen := congrArg List.length log
      rw [h.length_log, System.log, World.log, world, List.length_append] at hlen
      exact holds.2.trans hlen
    have hlog : σ'.world.log σ'.dropped = σ.world.log σ.dropped := log
    refine ⟨?_, by rw [world]; exact tail, covered, fun e he => ?_⟩
    · exact {
        ok := by
          rw [world]
          exact ⟨hseq ▸ h.logged.ok.book, h.logged.ok.reserved, fun c hc => hseq ▸ h.logged.ok.closing c hc⟩
        holds := by rw [world]; exact holds
        replayable := by
          rw [hlog]
          exact h.logged.replayable
        closing := by
          rw [hlog, world]
          exact h.logged.closing }
    · rw [world]
      exact hseq ▸ h.envelopes e (envelopes e he)
  | restart out start seq r es recovers fresh =>
    have hlogs := recovers.commits.logs
    refine ⟨?_, fun hne hnil => ?_, h.covered, fun e he => ?_⟩
    · exact {
        ok := ⟨recovers.commits.book, ⟨List.nodup_nil, by simp [World.reserved, withWorld, World.restarted, World.initial]⟩,
          by simp [World.closing, withWorld, World.restarted, World.initial]⟩
        holds := h.logged.holds.logs hlogs
        replayable := by
          intro ev hev
          have hlog : (σ.world.restarted out.1 out.2.1 out.2.2).log σ.dropped = σ.log ++ es := World.log_eq hlogs
          rcases List.mem_append.mp (hlog ▸ hev : ev ∈ σ.log ++ es) with hev | hev
          · exact h.logged.replayable ev hev
          · exact recovers.commits.replayable ev hev
        closing := by simp [World.closing, withWorld, World.restarted, World.initial] }
    · rw [withWorld, World.restarted, hlogs.events] at hnil
      exact h.tail hne (List.append_eq_nil_iff.mp hnil).1
    · have hold := h.envelopes e (List.mem_append_right _ he)
      exact ⟨hold.1, hold.2.trans (hlogs.seq ▸ Nat.le_add_right _ _)⟩

theorem Kept.step (h : Kept σ) (hstep : σ.step m = some σ') : Kept σ' := (step_effect h hstep).kept h

end System

/-- Where recovery stands after its replay is what the whole log means, if the envelopes mean what they
stand for. -/
theorem Recovers.same {env : Env} {dropped : List Event} {store : Store} {snapshots : Snapshots}
    {choice : Uuid → OrphanChoice} {out : EngineState × Table String Nat × Store} {start r : Replay} {seq : Nat}
    {es : List Event} (h : Recovers env dropped store snapshots choice out start seq r es)
    {R : PairConfig → PairConfig → Prop} (hR : RegistryRel R)
    (htaken : ∀ e ∈ snapshots, e.2.projection.Same R (projectLog env ((dropped ++ store.events).take e.1))) :
    r.state.projection.Same R (projectLog env (dropped ++ store.events)) := by
  have hstart : start.state.projection.Same R (projectLog env ((dropped ++ store.events).take seq)) := by
    obtain ⟨engine, ivcRound, ⟨rfl, rfl⟩ | ⟨snap, hsnap, rfl⟩⟩ := h.source
    · exact ⟨rfl, Registry.refl hR _, rfl, rfl, rfl, rfl⟩
    · exact htaken _ hsnap
  have hlog : projectLog env (dropped ++ store.events) =
      (projectLog env ((dropped ++ store.events).take seq)).applyAll env ((dropped ++ store.events).drop seq) := by
    rw [projectLog, projectLog, ← Projection.applyAll_append, List.take_append_drop]
  rw [h.projection, hlog]
  exact hstart.applyAll hR _

theorem registryRel_true : RegistryRel (fun _ _ => True) := ⟨fun _ => trivial, fun _ _ => trivial⟩

/-- The configuration the move registers. -/
def Move.registers : Move → Option PairConfig
  | .op a => a.registers
  | _ => none

namespace System

variable {env : Env} {σ σ' : System env} {m : Move} {R : PairConfig → PairConfig → Prop}

/-- The state means the log and every envelope means its part of it, the batches that await settlement
apart. -/
structure Follows (R : PairConfig → PairConfig → Prop) (σ : System env) : Prop extends Kept σ where
  same : σ.world.state.projection.Same R (projectLog env σ.log)
  taken : ∀ e ∈ σ.envelopes, e.2.projection.Same R (projectLog env (σ.log.take e.1))

theorem follows_initial (hR : RegistryRel R) (env : Env) : Follows R (initial env) where
  toKept := kept_initial env
  same := (World.sim_initial hR env).same
  taken := by simp [envelopes, initial]

/-- What an envelope means does not change when the log grows. -/
theorem Follows.taken_append (h : Follows R σ) {es : List Event} (hlog : σ'.log = σ.log ++ es)
    {e : Nat × SerializableState} (he : e ∈ σ.envelopes) : e.2.projection.Same R (projectLog env (σ'.log.take e.1)) := by
  rw [hlog, List.take_append_of_le_length (h.length_log ▸ (h.envelopes e he).2)]
  exact h.taken e he

theorem Effect.follows (hR : RegistryRel R) (heffect : σ.Effect m σ') (h : Follows R σ)
    (hconfig : ∀ config ∈ m.registers, R config config.logged) : Follows R σ' := by
  have hkept := heffect.kept h.toKept
  cases heffect with
  | op step effect =>
    obtain ⟨es, hlogs, -⟩ := effect.logs
    exact ⟨hkept, effect.same hR h.logged.ok hconfig h.same, fun e he => h.taken_append (log_withWorld hlogs) he⟩
  | capture idle =>
    refine ⟨hkept, h.same, fun e he => ?_⟩
    rcases List.mem_append.mp he with he | he
    · rw [show e = σ.world.captureSnapshotState.swap by simpa [withCaptured] using he]
      have hall : σ.log.take σ.world.store.lastSeq = σ.log := List.take_of_length_le h.length_log.le
      exact hall.symm ▸ h.same
    · exact h.taken e (List.mem_append_right _ he)
  | publish store world log holds tail covered envelopes =>
    refine ⟨hkept, ?_, fun e he => ?_⟩
    · rw [log, world]
      exact h.same
    · rw [log]
      exact h.taken e (envelopes e he)
  | restart out start seq r es recovers fresh =>
    have hlog := log_restarted recovers.commits.logs out.1 out.2.1
    refine ⟨hkept, ?_, fun e he => h.taken_append hlog (List.mem_append_right _ he)⟩
    have hsame := recovers.same hR (fun e he => h.taken e (List.mem_append_right _ he))
    rw [hlog, projectLog, Projection.applyAll_append]
    exact recovers.commits.projection ▸ hsame.applyAll hR es

theorem Follows.step (hR : RegistryRel R) (h : Follows R σ) (hconfig : ∀ config ∈ m.registers, R config config.logged)
    (hstep : σ.step m = some σ') : Follows R σ' := (step_effect h.toKept hstep).follows hR h hconfig

end System

end DarkPool
