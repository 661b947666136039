import DarkPool.Reaggregate

namespace DarkPool

/-- The retention knobs of `SnapshotConfig`. -/
structure SnapshotConfig where
  retainEvents : Nat
  retainCount : Nat

/-- `SnapshotStore::write`: envelopes are keyed by `seq` and listed in its order. -/
def writeSnapshot (snapshots : Snapshots) (seq : Nat) (snap : SerializableState) : Snapshots :=
  snapshots.filter (fun e => e.1 < seq) ++ (seq, snap) :: snapshots.filter (fun e => seq < e.1)

def deleteBefore (snapshots : Snapshots) (beforeSeq : Nat) : Snapshots := snapshots.filter (fun e => beforeSeq ≤ e.1)

/-- The retention sweep of `take_snapshot`. -/
def retentionSweep (config : SnapshotConfig) (snapshots : Snapshots) : Snapshots :=
  if 0 < config.retainCount ∧ config.retainCount < snapshots.length then
    deleteBefore snapshots ((snapshots.map Prod.fst).getD (snapshots.length - config.retainCount) 0)
  else snapshots

def compactFloor (config : SnapshotConfig) (seq : Nat) : Nat := seq - config.retainEvents

/-- A running engine with its snapshotter and the snapshot store. `captured` is what `take_snapshot`
holds before it writes, and `dropped` collects what compaction removed from the log. -/
structure System (env : Env) where
  world : World env
  captured : Option (Nat × SerializableState)
  snapshots : Snapshots
  dropped : List Event

/-- A critical section of the engine, one half of `take_snapshot`, or a crash with the recovery after it.
The flags say which of the writes to the two stores go through. -/
inductive Move
  | op (a : Action)
  | capture
  | publish (config : SnapshotConfig) (written compacted pruned : Bool)
  | restart (decodes : Nat → Bool) (choice : Uuid → OrphanChoice)

/-- The batch ids in what a recovery appended. -/
def drawnIds (store store' : Store) : List Uuid :=
  (store'.events.drop store.events.length).filterMap (fun ev => ev.data.submittedBatch)

/-- The engine after a crash: only what is stored survives, and the ids drawn stay drawn. -/
def World.restarted {env : Env} (w : World env) (state : EngineState) (ivcRound : Table String Nat) (store : Store) :
    World env :=
  { World.initial env with
    store := store
    state := state
    ivcRound := ivcRound
    issued := drawnIds w.store store ++ w.issued }

namespace System

variable {env : Env}

def initial (env : Env) : System env := ⟨World.initial env, none, [], []⟩

def withWorld (σ : System env) (w : World env) : System env := { σ with world := w }

def withCaptured (σ : System env) (captured : Option (Nat × SerializableState)) : System env :=
  { σ with captured := captured }

def withSnapshots (σ : System env) (snapshots : Snapshots) : System env := { σ with snapshots := snapshots }

/-- The event log is compacted below the floor. -/
def compact (σ : System env) (floor : Nat) : System env :=
  { σ with
    world := σ.world.withStore (σ.world.store.compactBefore floor)
    dropped := σ.dropped ++ σ.world.store.events.filter (fun e => e.seq < floor) }

/-- The envelopes the store lists after the write and the sweep. -/
def published (σ : System env) (config : SnapshotConfig) (pruned : Bool) (e : Nat × SerializableState) : Snapshots :=
  let snapshots := writeSnapshot σ.snapshots e.1 e.2
  if pruned then retentionSweep config snapshots else snapshots

/-- `take_snapshot` after its capture. A failed write ends it; a failed compaction or sweep is logged. -/
def publish (σ : System env) (config : SnapshotConfig) (written compacted pruned : Bool)
    (e : Nat × SerializableState) : System env :=
  if written then
    let σ' := (σ.withCaptured none).withSnapshots (σ.published config pruned e)
    if compacted then σ'.compact (compactFloor config e.1) else σ'
  else σ.withCaptured none

/-- The new process starts from the stores alone. -/
def restart (σ : System env) (decodes : Nat → Bool) (choice : Uuid → OrphanChoice) : Option (System env) :=
  match recover env EngineState.new ∅ σ.world.store (some σ.snapshots) decodes choice with
  | .error _ => none
  | .ok (state, ivcRound, store) =>
    if σ.world.Fresh (drawnIds σ.world.store store) then
      some ((σ.withCaptured none).withWorld (σ.world.restarted state ivcRound store))
    else none

def step (σ : System env) : Move → Option (System env)
  | .op a => (σ.world.step a).map σ.withWorld
  | .capture =>
    if σ.world.tick.isNone then some (σ.withCaptured (some σ.world.captureSnapshotState.swap)) else none
  | .publish config written compacted pruned => σ.captured.map (σ.publish config written compacted pruned)
  | .restart decodes choice => σ.restart decodes choice

/-- Every event ever logged. -/
def log (σ : System env) : List Event := σ.world.log σ.dropped

/-- The envelopes recovery may one day start from. -/
def envelopes (σ : System env) : Snapshots := σ.captured.toList ++ σ.snapshots

theorem mem_writeSnapshot {snapshots : Snapshots} {seq : Nat} {snap : SerializableState} {e : Nat × SerializableState}
    (h : e ∈ writeSnapshot snapshots seq snap) : e = (seq, snap) ∨ e ∈ snapshots := by
  unfold writeSnapshot at h
  rcases List.mem_append.mp h with h | h
  · exact Or.inr (List.mem_filter.mp h).1
  · rcases List.mem_cons.mp h with rfl | h
    · exact Or.inl rfl
    · exact Or.inr (List.mem_filter.mp h).1

theorem mem_retentionSweep {config : SnapshotConfig} {snapshots : Snapshots} {e : Nat × SerializableState}
    (h : e ∈ retentionSweep config snapshots) : e ∈ snapshots := by
  unfold retentionSweep at h
  split at h
  next => exact (List.mem_filter.mp h).1
  next => exact h

theorem mem_published {σ : System env} {config : SnapshotConfig} {pruned : Bool} {e e' : Nat × SerializableState}
    (h : e' ∈ σ.published config pruned e) : e' = e ∨ e' ∈ σ.snapshots := by
  unfold published at h
  simp only at h
  split at h
  next => exact mem_writeSnapshot (mem_retentionSweep h)
  next => exact mem_writeSnapshot h

end System

namespace Store

theorem filter_seq_append {n floor : Nat} {events : List Event} (h : Numbered n events) :
    events.filter (fun e => e.seq < floor) ++ events.filter (fun e => floor ≤ e.seq) = events := by
  induction events generalizing n with
  | nil => rfl
  | cons e events ih =>
    obtain ⟨hseq, hrest⟩ := numbered_cons.mp h
    by_cases hlt : e.seq < floor
    · rw [List.filter_cons_of_pos (by simpa using hlt), List.filter_cons_of_neg (by simpa using hlt),
        List.cons_append, ih hrest]
    · -- The numbers ascend, so nothing after it is below the floor either.
      have hall : ∀ x ∈ e :: events, floor ≤ x.seq := by
        intro x hx
        rcases List.mem_cons.mp hx with rfl | hx
        · omega
        · have := (hrest.lt_of_mem hx).1
          omega
      rw [List.filter_eq_nil_iff.mpr (fun x hx => by simpa using hall x hx),
        List.filter_eq_self.mpr (fun x hx => by simpa using hall x hx), List.nil_append]

theorem compactBefore_events (store : Store) (floor : Nat) :
    (store.compactBefore floor).events = store.events.filter (fun e => floor ≤ e.seq) ∧
      (store.compactBefore floor).seq = store.seq := by
  unfold compactBefore
  split
  next h0 => simp [h0]
  next => exact ⟨rfl, rfl⟩

/-- Compaction moves events from the store to what it has dropped. -/
theorem Holds.compact {store : Store} {dropped : List Event} (h : store.Holds dropped) (floor : Nat) :
    (store.compactBefore floor).Holds (dropped ++ store.events.filter (fun e => e.seq < floor)) ∧
      (dropped ++ store.events.filter (fun e => e.seq < floor)) ++ (store.compactBefore floor).events =
        dropped ++ store.events := by
  obtain ⟨hevents, hseq⟩ := compactBefore_events store floor
  have hsplit : store.events.filter (fun e => e.seq < floor) ++ store.events.filter (fun e => floor ≤ e.seq) =
      store.events := filter_seq_append h.numbered
  have hlog : (dropped ++ store.events.filter (fun e => e.seq < floor)) ++ (store.compactBefore floor).events =
      dropped ++ store.events := by rw [hevents, List.append_assoc, hsplit]
  refine ⟨⟨hlog ▸ h.1, ?_⟩, hlog⟩
  have hlen := congrArg List.length hlog
  simp only [List.length_append] at hlen
  rw [hseq, h.2, List.length_append]
  omega

/-- The newest event survives a compaction whose floor the store has reached. -/
theorem Holds.compact_ne_nil {store : Store} {dropped : List Event} (h : store.Holds dropped) {floor : Nat}
    (hfloor : floor ≤ store.seq) (hne : store.events ≠ []) : (store.compactBefore floor).events ≠ [] := by
  rw [(compactBefore_events store floor).1]
  have hsplit := List.dropLast_append_getLast hne
  have hnum := h.numbered
  rw [← hsplit] at hnum
  have hlast := (numbered_cons.mp (numbered_append.mp hnum).2).1
  have hlen : store.events.dropLast.length = store.events.length - 1 := List.length_dropLast
  have hpos := List.length_pos_iff.mpr hne
  have hseq := h.2
  refine List.ne_nil_of_mem (List.mem_filter.mpr ⟨List.getLast_mem hne, decide_eq_true ?_⟩)
  omega

end Store

end DarkPool
