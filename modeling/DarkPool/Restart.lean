import DarkPool.System

namespace DarkPool

section Start

variable {store : Store} {dropped : List Event} {decodes : Nat → Bool} {r start : Replay} {seq : Nat}

/-- Reading after something that is gone gives the first event the store still has. -/
theorem readFrom_first (h : store.Holds dropped) (hseq : seq ≤ dropped.length) :
    (store.readFrom seq 1).bind List.head? = store.events.head? := by
  have hindex : Store.indexAfter store.events seq = 0 := by
    unfold Store.indexAfter
    split
    next => rfl
    next =>
      rw [Store.length_takeWhile_seq h.numbered]
      omega
  rw [Store.readFrom, if_neg one_ne_zero, hindex, List.drop_zero, Option.bind_some, List.head?_take, if_neg one_ne_zero]

theorem head_seq (h : store.Holds dropped) {e : Event} (he : store.events.head? = some e) :
    e.seq = dropped.length + 1 := by
  obtain ⟨rest, hevents⟩ := List.head?_eq_some_iff.mp he
  have hnum := h.numbered
  rw [hevents] at hnum
  exact (numbered_cons.mp hnum).1

/-- A log that continues a sequence number has not been compacted beyond it. -/
theorem le_of_continuousAfter (h : store.Holds dropped) (htail : dropped ≠ [] → store.events ≠ [])
    (hcont : eventLogContinuousAfter store seq = true) : dropped.length ≤ seq := by
  by_contra hlt
  have hne : store.events ≠ [] := htail (List.ne_nil_of_length_pos (by omega))
  unfold eventLogContinuousAfter at hcont
  rw [readFrom_first h (by omega)] at hcont
  split at hcont
  next e he =>
    have hhead := head_seq h he
    rw [decide_eq_true_eq] at hcont
    omega
  next he => exact hne (List.head?_eq_none_iff.mp he)

theorem eq_nil_of_coversSeqOne (h : store.Holds dropped) (hcov : eventLogCoversSeqOne store = true) : dropped = [] := by
  unfold eventLogCoversSeqOne at hcov
  rw [readFrom_first h (Nat.zero_le _)] at hcov
  split at hcov
  next e he =>
    have hhead := head_seq h he
    rw [decide_eq_true_eq] at hcov
    exact List.eq_nil_of_length_eq_zero (by omega)
  next => simp at hcov

/-- Recovery starts from nothing or from an envelope, and the log continues either. -/
theorem recoverStart_cases (h : store.Holds dropped) (htail : dropped ≠ [] → store.events ≠ []) {snapshots : Snapshots}
    (hsnaps : dropped ≠ [] → snapshots ≠ []) (hstart : recoverStart store r (some snapshots) decodes = .ok (start, seq)) :
    dropped.length ≤ seq ∧ ((start = r ∧ seq = 0) ∨ ∃ snap, (seq, snap) ∈ snapshots ∧ start = r.restore snap) := by
  unfold recoverStart at hstart
  cases snapshots with
  | nil =>
    obtain ⟨rfl, rfl⟩ := Prod.mk.inj (Except.ok.inj hstart)
    have hnil : dropped = [] := by
      by_contra hne
      exact hsnaps hne rfl
    exact ⟨by simp [hnil], Or.inl ⟨rfl, rfl⟩⟩
  | cons s ss =>
    simp only at hstart
    split at hstart
    next seq' snap hfind =>
      split at hstart
      next hcont =>
        obtain ⟨rfl, rfl⟩ := Prod.mk.inj (Except.ok.inj hstart)
        have hmem : (seq', snap) ∈ s :: ss := List.mem_reverse.mp (List.mem_of_find?_eq_some hfind)
        exact ⟨le_of_continuousAfter h htail hcont, Or.inr ⟨snap, hmem, rfl⟩⟩
      next => simp at hstart
    next =>
      split at hstart
      next hcov =>
        obtain ⟨rfl, rfl⟩ := Prod.mk.inj (Except.ok.inj hstart)
        exact ⟨by simp [eq_nil_of_coversSeqOne h hcov], Or.inl ⟨rfl, rfl⟩⟩
      next => simp at hstart

end Start

/-- The event store and the snapshot store as a crash may leave them. -/
structure Stored (env : Env) (dropped : List Event) (store : Store) (snapshots : Snapshots) : Prop where
  holds : store.Holds dropped
  replayable : ∀ ev ∈ dropped ++ store.events, Replayable env ev
  tail : dropped ≠ [] → store.events ≠ []
  covered : dropped ≠ [] → snapshots ≠ []
  envelopes : ∀ e ∈ snapshots, e.2.book.seq ≤ e.1 ∧ e.1 ≤ store.seq

/-- How recovery got where it is: from where it started, over the rest of the log, to the batches it
made for the orphans. -/
structure Recovers (env : Env) (dropped : List Event) (store : Store) (snapshots : Snapshots)
    (choice : Uuid → OrphanChoice) (out : EngineState × Table String Nat × Store) (start : Replay) (seq : Nat)
    (r : Replay) (es : List Event) : Prop where
  source : ∃ engine ivcRound, (start = Replay.start engine ivcRound ∧ seq = 0) ∨
    ∃ snap, (seq, snap) ∈ snapshots ∧ start = (Replay.start engine ivcRound).restore snap
  after : dropped.length ≤ seq
  le_length : seq ≤ (dropped ++ store.events).length
  replay : replayAll env start ((dropped ++ store.events).drop seq) = .ok r
  projection : r.state.projection = start.state.projection.applyAll env ((dropped ++ store.events).drop seq)
  commits : Commits env r.state store out.1 out.2.2 es
  rescues : ∀ ev ∈ es, ∃ a ∈ orphanIds r, ev.data.Rescues choice a
  rows : ∀ q q', Knows r q (orphanIds r) → (∀ ev ∈ es, ∀ b, ev.data.Submits b → q.state.row b = none) →
    (es.filterMap (fun ev => ev.data.submittedBatch)).Nodup → replayAll env q es = .ok q' →
    ∀ b, out.1.row b = q'.state.row b

theorem nodup_orphanIds (r : Replay) : (orphanIds r).Nodup :=
  (List.perm_insertionSort _ _).nodup_iff.mpr r.matchesByAuction.keys_nodup

variable {env : Env} {dropped : List Event} {store : Store} {snapshots : Snapshots} {decodes : Nat → Bool}
  {choice : Uuid → OrphanChoice} {engine : EngineState} {ivcRound : Table String Nat}

/-- Whenever recovery succeeds, it did so in this way. -/
theorem recover_recovers (h : Stored env dropped store snapshots) (hnew : engine.recovered = false)
    {out : EngineState × Table String Nat × Store}
    (hout : recover env engine ivcRound store (some snapshots) decodes choice = .ok out) :
    ∃ start seq r es, Recovers env dropped store snapshots choice out start seq r es := by
  have hlen : (dropped ++ store.events).length = store.seq := by rw [List.length_append, h.holds.2]
  cases hstart : recoverStart store (Replay.start engine ivcRound) (some snapshots) decodes with
  | error e =>
    unfold recover at hout
    rw [if_neg (by simp [hnew]), hstart] at hout
    simp [bind, Except.bind] at hout
  | ok sa =>
    obtain ⟨start, seq⟩ := sa
    obtain ⟨hafter, hsource⟩ := recoverStart_cases h.holds h.tail h.covered hstart
    have hle : seq ≤ store.seq ∧ start.state.book.seq ≤ seq := by
      rcases hsource with ⟨rfl, rfl⟩ | ⟨snap, hmem, rfl⟩
      · exact ⟨Nat.zero_le _, le_rfl⟩
      · exact (h.envelopes _ hmem).symm
    have hdrop : (dropped ++ store.events).drop seq = store.events.drop (seq - dropped.length) := by
      rw [List.drop_append, List.drop_eq_nil_of_le hafter, List.nil_append]
    have hnum := h.holds.numbered_drop hafter hle.1
    obtain ⟨r, hr, hproj, hbook⟩ := replayAll_refines hnum
      (fun ev hev => h.replayable ev (List.mem_append_right _ (List.mem_of_mem_drop hev))) hle.2
    rw [recover_eq hnew h.holds hstart hafter, hr] at hout
    obtain ⟨r', hr', hout⟩ := bind_eq_ok.mp hout
    cases Except.ok.inj hr'
    obtain ⟨rs, hrs, hout⟩ := bind_eq_ok.mp hout
    have hseq : r.state.book.seq ≤ store.seq := by
      refine hbook.trans ?_
      rw [List.length_drop]
      have := h.holds.2
      omega
    obtain ⟨es, hcommits, hes, hrows⟩ := @sweep env r store choice _ (nodup_orphanIds r) rs hrs hseq
    cases Except.ok.inj hout
    refine ⟨start, seq, r, es, ?_⟩
    exact {
      source := ⟨engine, ivcRound, hsource⟩
      after := hafter
      le_length := hlen ▸ hle.1
      replay := hdrop ▸ hr
      projection := hdrop ▸ hproj
      commits := ⟨hcommits.logs, hcommits.replayable, hcommits.projection, hcommits.book⟩
      rescues := hes
      rows := hrows }

end DarkPool
