import DarkPool.Filing

namespace DarkPool

/-- The newest of consecutively numbered events. -/
theorem Numbered.seq_getLast {n : Nat} {events : List Event} (h : Numbered n events) (hne : events ≠ []) :
    (events.getLast hne).seq = n + events.length := by
  have hpos := List.length_pos_iff.mpr hne
  rw [← List.dropLast_append_getLast hne, numbered_append, numbered_cons, List.length_dropLast] at h
  rw [h.2.1]
  omega

/-- Compaction drops nothing from its floor on. -/
theorem Store.Holds.length_compact_le {store : Store} {dropped : List Event} (h : store.Holds dropped) {floor n : Nat}
    (hdropped : dropped.length ≤ n) (hfloor : floor ≤ n + 1) :
    (dropped ++ store.events.filter (fun e => e.seq < floor)).length ≤ n := by
  have hnum := (numbered_append.mp (numbered_append.mp (h.compact floor).1.1).1).2
  rw [List.length_append]
  by_cases hnil : store.events.filter (fun e => e.seq < floor) = []
  · simpa [hnil] using hdropped
  · have hlast := hnum.seq_getLast hnil
    have hlt := of_decide_eq_true (List.mem_filter.mp (List.getLast_mem hnil)).2
    omega

/-- Which batches await settlement depends on nothing else. -/
theorem Projection.pending_applyAll_congr {env : Env} {p q : Projection} (h : p.pending = q.pending) (es : List Event) :
    (p.applyAll env es).pending = (q.applyAll env es).pending := by
  induction es generalizing p q with
  | nil => exact h
  | cons ev es ih =>
    refine @ih (p.apply env ev) (q.apply env ev) ?_
    ext b
    rw [mem_pending_apply, mem_pending_apply, h]

theorem Recovers.pending {env : Env} {dropped : List Event} {store : Store} {snapshots : Snapshots}
    {choice : Uuid → OrphanChoice} {out : EngineState × Table String Nat × Store} {start r : Replay} {seq : Nat}
    {es : List Event} (h : Recovers env dropped store snapshots choice out start seq r es)
    (htaken : ∀ e ∈ snapshots, e.2.projection.pending = (projectLog env ((dropped ++ store.events).take e.1)).pending) :
    r.state.projection.pending = (projectLog env (dropped ++ store.events)).pending := by
  have hstart : start.state.projection.pending = (projectLog env ((dropped ++ store.events).take seq)).pending := by
    obtain ⟨engine, ivcRound, ⟨rfl, rfl⟩ | ⟨snap, hsnap, rfl⟩⟩ := h.source
    · rfl
    · exact htaken _ hsnap
  rw [h.projection, Projection.pending_applyAll_congr hstart, ← projectLog_append, List.take_append_drop]

namespace System

variable {env : Env} {σ σ' : System env} {m : Move}

/-- What keeps every retained envelope usable: the log submits no batch it has closed and loses nothing
of a configuration, no capture is taken while a batch is being closed, and no compaction reaches beyond
the oldest envelope that stays. -/
def Spaced (σ : System env) : Move → Prop
  | .op a => σ.world.Regular a
  | .capture => ∀ b ∈ σ.world.closingIds, b ∉ σ.world.state.projection.pending
  | .publish config _ _ pruned => ∀ e ∈ σ.captured, ∀ e' ∈ σ.published config pruned e, compactFloor config e.1 ≤ e'.1 + 1
  | .restart _ _ => True

instance (σ : System env) (m : Move) : Decidable (σ.Spaced m) :=
  match m with
  | .op a => inferInstanceAs (Decidable (σ.world.Regular a))
  | .capture => List.decidableBAll (fun b => b ∉ σ.world.state.projection.pending) σ.world.closingIds
  | .publish config _ _ pruned =>
    inferInstanceAs (Decidable (∀ e ∈ σ.captured, ∀ e' ∈ σ.published config pruned e, compactFloor config e.1 ≤ e'.1 + 1))
  | .restart _ _ => isTrue trivial

/-- Only a compaction drops events, and then the envelopes that stay are the published ones. -/
theorem publish_dropped (σ : System env) (config : SnapshotConfig) (written compacted pruned : Bool)
    (e : Nat × SerializableState) :
    (σ.publish config written compacted pruned e).captured = none ∧
      ((σ.publish config written compacted pruned e).dropped = σ.dropped ∨
        (σ.publish config written compacted pruned e).snapshots = σ.published config pruned e ∧
        (σ.publish config written compacted pruned e).dropped =
          σ.dropped ++ σ.world.store.events.filter (fun ev => ev.seq < compactFloor config e.1)) := by
  unfold publish
  split
  next =>
    simp only
    split
    next => exact ⟨rfl, Or.inr ⟨rfl, rfl⟩⟩
    next => exact ⟨rfl, Or.inl rfl⟩
  next => exact ⟨rfl, Or.inl rfl⟩

/-- The state and every envelope mean the log, and the log goes back to every envelope. -/
structure Usable (σ : System env) : Prop extends Follows Eq σ where
  pending : ∀ b, b ∈ (projectLog env σ.log).pending ↔ b ∈ σ.world.state.projection.pending ∧ b ∉ σ.world.closingIds
  takenPending : ∀ e ∈ σ.envelopes, e.2.projection.pending = (projectLog env (σ.log.take e.1)).pending
  reaches : ∀ e ∈ σ.envelopes, σ.dropped.length ≤ e.1

theorem Usable.step (h : Usable σ) (hspaced : σ.Spaced m) (hstep : σ.step m = some σ') : Usable σ' := by
  have heffect := step_effect h.toKept hstep
  have hconfig : ∀ config ∈ m.registers, config = config.logged := by
    cases m with
    | op a => exact fun config hc => (hspaced.1 config hc).logged
    | _ => simp [Move.registers]
  have hfollows := heffect.follows World.registryRel_eq h.toFollows hconfig
  -- What an envelope means does not change when the log grows.
  have htaken : ∀ {es}, σ'.log = σ.log ++ es → ∀ e ∈ σ.envelopes,
      e.2.projection.pending = (projectLog env (σ'.log.take e.1)).pending := by
    intro es hlog e he
    rw [hlog, List.take_append_of_le_length (h.length_log ▸ (h.envelopes e he).2)]
    exact h.takenPending e he
  cases heffect with
  | op step effect =>
    obtain ⟨es, hlogs, -⟩ := effect.logs
    have hsim : World.Sim Eq σ.dropped σ.world := ⟨h.logged, h.same, h.pending⟩
    exact ⟨hfollows, hsim.pending_effect effect hspaced.2, htaken (log_withWorld hlogs), h.reaches⟩
  | capture idle =>
    refine ⟨hfollows, h.pending, fun e he => ?_, fun e he => ?_⟩
    · rcases List.mem_append.mp he with he | he
      · rw [show e = σ.world.captureSnapshotState.swap by simpa [withCaptured] using he]
        have hall : σ.log.take σ.world.store.lastSeq = σ.log := List.take_of_length_le h.length_log.le
        have hpending : σ.world.state.projection.pending = (projectLog env σ.log).pending := by
          ext b
          rw [h.pending b]
          exact ⟨fun hb => ⟨hb, fun hc => hspaced b hc hb⟩, And.left⟩
        exact hall.symm ▸ hpending
      · exact h.takenPending e (List.mem_append_right _ he)
    · rcases List.mem_append.mp he with he | he
      · rw [show e = σ.world.captureSnapshotState.swap by simpa [withCaptured] using he]
        exact (Nat.le_add_right _ _).trans h.logged.holds.2.ge
      · exact h.reaches e (List.mem_append_right _ he)
  | publish store world log holds tail covered envelopes =>
    refine ⟨hfollows, ?_, fun e he => ?_, ?_⟩
    · rw [log, world]
      exact h.pending
    · rw [log]
      exact h.takenPending e (envelopes e he)
    · obtain ⟨e, he, rfl⟩ := Option.map_eq_some_iff.mp hstep
      intro e' he'
      have hold := h.reaches e' (envelopes e' he')
      obtain ⟨hnone, hsame | ⟨hsnapshots, hdropped⟩⟩ := publish_dropped σ _ _ _ _ e
      · rw [hsame]
        exact hold
      · rw [hdropped]
        rw [System.envelopes, hnone, hsnapshots] at he'
        exact h.logged.holds.length_compact_le hold (hspaced e he e' he')
  | restart out start seq r es recovers fresh =>
    have hlog := log_restarted recovers.commits.logs out.1 out.2.1
    refine ⟨hfollows, fun b => ?_, fun e he => htaken hlog e (List.mem_append_right _ he),
      fun e he => h.reaches e (List.mem_append_right _ he)⟩
    have hnone : b ∉ (σ.world.restarted out.1 out.2.1 out.2.2).closingIds := by
      simp [World.closingIds, World.closing, World.restarted, World.initial]
    have hreplay : r.state.projection.pending = (projectLog env σ.log).pending :=
      recovers.pending (fun e he => h.takenPending e (List.mem_append_right _ he))
    rw [hlog, projectLog_append, ← Projection.pending_applyAll_congr hreplay, ← recovers.commits.projection]
    exact (and_iff_left hnone).symm

/-- Replaying the rest of the log on top of an envelope gives what the whole log means. -/
theorem Usable.agrees (h : Usable σ) {e : Nat × SerializableState} (he : e ∈ σ.snapshots) (ids : Set Uuid) :
    (e.2.projection.applyAll env (σ.log.drop e.1)).Agrees (projectLog env σ.log) ids := by
  have hlog : projectLog env σ.log = (projectLog env (σ.log.take e.1)).applyAll env (σ.log.drop e.1) := by
    rw [← projectLog_append, List.take_append_drop]
  have hsame := @Projection.Same.applyAll env Eq World.registryRel_eq _ _ (h.taken e (List.mem_append_right _ he))
    (σ.log.drop e.1)
  have hpending := @Projection.pending_applyAll_congr env _ _ (h.takenPending e (List.mem_append_right _ he))
    (σ.log.drop e.1)
  rw [hlog]
  exact ⟨hsame.books, hsame.registry.lookup_eq, hsame.auctionLog, hsame.seenCiphertexts, hsame.spentNullifiers,
    hsame.spentOrderNonces, fun b _ => by rw [hpending]⟩

end System

namespace Scenario

def registering (pair : String) : Move := .op (.registerPair pair (PairConfig.new 100 200) now 0 true)

/-- A snapshot that keeps one event behind it and two envelopes. -/
def snapshotting : List Move := [.capture, .publish ⟨1, 2⟩ true true true]

/-- Three events lie between two snapshots. -/
def spreadOut : List Move :=
  registering "ETH-USDC" :: snapshotting ++
    [registering "BTC-USDC", registering "SOL-USDC", registering "DAI-USDC"] ++ snapshotting

end Scenario

end DarkPool
