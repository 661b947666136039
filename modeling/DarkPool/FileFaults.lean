import DarkPool.FileReopen

namespace DarkPool

namespace FileStore

variable (codec : RecordCodec Event)

/-- A store on a new file after appends that returned `Ok`. -/
def afterAppends (calls : List (DateTime × List Event)) : FileStore :=
  calls.foldl (fun s c => s.call codec (.append c.1 c.2)) fresh

/-- What a crash during an append leaves in the file: all that was synced, and `n` bytes of the append. -/
def crashed (s : FileStore) (clock : DateTime) (events : List Event) (n : Nat) : Bytes :=
  s.written ++ (codec.frames (Store.stamp clock s.seq events)).take n

end FileStore

section Crash

variable {codec : RecordCodec Event}

/-- Appends alone fill the log from its first event on. -/
theorem afterAppends_mirrors (calls : List (DateTime × List Event)) :
    ∃ store : Store, (FileStore.afterAppends codec calls).Mirrors codec store ∧ store.Holds [] := by
  induction calls using List.reverseRecOn with
  | nil => exact ⟨Store.empty, mirrors_fresh, Store.holds_empty⟩
  | append_singleton calls c ih =>
    obtain ⟨store, hmirrors, hholds⟩ := ih
    have hstep : FileStore.afterAppends codec (calls ++ [c]) =
        (FileStore.afterAppends codec calls).call codec (.append c.1 c.2) := by
      rw [FileStore.afterAppends, List.foldl_append]
      rfl
    refine ⟨store.call (.append c.1 c.2), hstep ▸ hmirrors.call _, hholds.logs ⟨rfl, Store.numbered_stamp _ _ _, ?_⟩⟩
    rw [Store.length_stamp]
    rfl

theorem foldl_seq_of_numbered {events : List Event} (h : Numbered 0 events) :
    events.foldl (fun seq e => max seq e.seq) 0 = events.length := by
  rw [foldl_max_seq h 0 le_rfl]
  by_cases hnil : events = []
  · rw [if_pos hnil, hnil]
    rfl
  · rw [if_neg hnil, Nat.zero_add]

end Crash

/-- After a crash in an append, the file holds the appends before it, with or without the last one, exactly
if the loader accepts every record of theirs and finds either nothing of the last one or all of it. -/
theorem crash_atomic_iff (codec : RecordCodec Event) (calls : List (DateTime × List Event)) (clock : DateTime)
    (events : List Event) (n : Nat) :
    let s := FileStore.afterAppends codec calls
    let last := Store.stamp clock s.seq events
    (∃ r, FileStore.openFile codec (s.crashed codec clock events n) = .ok r ∧
      (r.events = s.events ∨ r.events = s.events ++ last) ∧ r.lastSeq = r.events.length) ↔
    (∀ e ∈ s.events, codec.Fits maxRecordBytes e) ∧
      ((∀ e ∈ last.head?, codec.Ends maxRecordBytes e n) ∨
        ((∀ e ∈ last, codec.Fits maxRecordBytes e) ∧ (codec.frames last).length ≤ n)) := by
  intro s last
  obtain ⟨store, hmirrors, hholds⟩ := @afterAppends_mirrors codec calls
  have hnum : Numbered 0 s.events := by
    have h := hholds.numbered
    rwa [← hmirrors.events] at h
  have hlast : Numbered 0 (s.events ++ last) := by
    refine numbered_append.mpr ⟨hnum, ?_⟩
    have hseq : 0 + s.events.length = s.seq := by
      rw [hmirrors.events, hmirrors.seq, hholds.2]
      rfl
    rw [hseq]
    exact Store.numbered_stamp clock s.seq events
  have hfile : s.crashed codec clock events n = codec.frames s.events ++ (codec.frames last).take n := by
    rw [FileStore.crashed, hmirrors.written, ← hmirrors.events]
  constructor
  · rintro ⟨r, hr, hevents, -⟩
    obtain ⟨l, hload, rfl⟩ := openFile_eq_ok.mp hr
    rw [hfile] at hload
    have hread : s.events.length ≤ l.1.length := by
      rcases hevents with h | h
      · exact (congrArg List.length h).ge
      · have hlen := congrArg List.length h
        rw [List.length_append] at hlen
        exact le_of_le_of_eq (Nat.le_add_right _ _) hlen.symm
    have hfits := codec.fits_of_load maxRecordBytes_lt hload hread
    refine ⟨hfits, ?_⟩
    rw [codec.load_frames maxRecordBytes_lt hfits] at hload
    generalize 0 + (codec.frames s.events).length = offset at hload
    cases htail : codec.load maxRecordBytes ((codec.frames last).take n) offset with
    | error e =>
      rw [htail] at hload
      cases hload
    | ok t =>
      rw [htail] at hload
      cases Except.ok.inj hload
      rcases hevents with h | h
      · left
        have hnil : t.1 = [] := List.append_right_eq_self.mp h
        refine (codec.load_take_eq_none maxRecordBytes_lt last n offset).mp ?_
        rw [htail]
        exact congrArg Except.ok hnil
      · right
        have hall : t.1 = last := List.append_cancel_left h
        refine (codec.load_take_eq_all maxRecordBytes_lt last n offset).mp ?_
        rw [htail]
        exact congrArg Except.ok hall
  · rintro ⟨hfits, htail⟩
    have hload := codec.load_frames maxRecordBytes_lt hfits ((codec.frames last).take n) 0
    rw [← hfile] at hload
    generalize 0 + (codec.frames s.events).length = offset at hload
    have hopen : ∀ es, (codec.load maxRecordBytes ((codec.frames last).take n) offset).map Prod.fst = .ok es →
        ∃ r, FileStore.openFile codec (s.crashed codec clock events n) = .ok r ∧ r.events = s.events ++ es ∧
          r.lastSeq = (s.events ++ es).foldl (fun seq e => max seq e.seq) 0 := by
      intro es hes
      cases hrest : codec.load maxRecordBytes ((codec.frames last).take n) offset with
      | error e =>
        rw [hrest] at hes
        cases hes
      | ok t =>
        rw [hrest] at hes hload
        cases Except.ok.inj hes
        exact ⟨_, openFile_eq_ok.mpr ⟨_, hload, rfl⟩, rfl, rfl⟩
    rcases htail with hends | hall
    · obtain ⟨r, hr, hevents, hseq⟩ := hopen [] ((codec.load_take_eq_none maxRecordBytes_lt last n offset).mpr hends)
      rw [List.append_nil] at hevents hseq
      exact ⟨r, hr, Or.inl hevents, by rw [hseq, foldl_seq_of_numbered hnum, hevents]⟩
    · obtain ⟨r, hr, hevents, hseq⟩ := hopen last ((codec.load_take_eq_all maxRecordBytes_lt last n offset).mpr hall)
      exact ⟨r, hr, Or.inr hevents, by rw [hseq, foldl_seq_of_numbered hlast, hevents]⟩

namespace Scenario

/-- The events of a round, as the store numbers them from `seq` on. -/
def roundEvents (seq : Nat) : List Event :=
  [⟨seq, 5, .auctionExecuted 21 "ETH-USDC" 10 1 1 5⟩, ⟨seq + 1, 5, .orderMatched 21 ⟨11, 1⟩ ⟨12, 1⟩ 10 1⟩]

end Scenario

open Scenario in
/-- A crash between the two records of a round leaves the auction without its match. -/
theorem crash_splits_round :
    ∃ (codec : RecordCodec Event) (n : Nat) (r : FileStore),
      FileStore.openFile codec (FileStore.fresh.crashed codec 5 (roundEvents 0) n) = .ok r ∧
      r.events = (roundEvents 1).take 1 := by
  obtain ⟨codec, hfits⟩ := exists_fitting (roundEvents 1) (by decide)
  have hfirst : ∀ e ∈ (roundEvents 1).take 1, codec.Fits maxRecordBytes e := fun e he => hfits e (List.mem_of_mem_take he)
  have hcut : FileStore.fresh.crashed codec 5 (roundEvents 0) (codec.frames ((roundEvents 1).take 1)).length =
      codec.frames ((roundEvents 1).take 1) := by
    have hstamp : Store.stamp 5 0 (roundEvents 0) = (roundEvents 1).take 1 ++ (roundEvents 1).drop 1 := rfl
    rw [FileStore.crashed, FileStore.fresh, hstamp, RecordCodec.frames_append, List.take_left]
    rfl
  exact ⟨codec, _, _, hcut ▸ openFile_frames hfirst, rfl⟩

namespace Scenario

end Scenario

/-- A call on a file store: an append that returns `Ok`, or a compaction of which a step may fail. -/
inductive FileCall
  | append (clock : DateTime) (events : List Event)
  | compactBefore (beforeSeq : Nat) (fault : Option CompactStep)

/-- The call, and the events that the store still has to return after it: those it took, but for what a
compaction was asked to discard. -/
def callFile (codec : RecordCodec Event) (p : FileStore × List Event) : FileCall → Option (FileStore × List Event)
  | .append clock events =>
    some (p.1.call codec (.append clock events), p.2 ++ Store.stamp clock p.1.seq events)
  | .compactBefore beforeSeq fault =>
    some ((p.1.compactBefore codec beforeSeq fault).1, p.2.filter (fun e => beforeSeq ≤ e.seq))

/-- The loader accepts the records of the call, and a compaction does not fail after its rename. -/
def FileCall.Safe (codec : RecordCodec Event) (s : FileStore) : FileCall → Prop
  | .append clock events => ∀ e ∈ Store.stamp clock s.seq events, codec.Fits maxRecordBytes e
  | .compactBefore _ fault => ∀ step ∈ fault, step.afterRename = false

/-- The path names the file of the handle, which holds the events in memory, and these include all that
have to be returned. -/
structure Attached (codec : RecordCodec Event) (p : FileStore × List Event) : Prop where
  renamed : p.1.renamed = none
  written : p.1.written = codec.frames p.1.events
  fits : ∀ e ∈ p.1.events, codec.Fits maxRecordBytes e
  kept : p.2.Sublist p.1.events

theorem Attached.step {codec : RecordCodec Event} {p p' : FileStore × List Event} {c : FileCall} (h : Attached codec p)
    (hsafe : c.Safe codec p.1) (hstep : callFile codec p c = some p') : Attached codec p' := by
  cases c with
  | append clock events =>
    cases Option.some.inj hstep
    rw [FileStore.call, append_success]
    refine ⟨h.renamed, ?_, ?_, h.kept.append_right _⟩
    · dsimp only
      rw [h.written, RecordCodec.frames_append]
    · intro e he
      rcases List.mem_append.mp he with he | he
      · exact h.fits e he
      · exact hsafe e he
  | compactBefore beforeSeq fault =>
    cases Option.some.inj hstep
    have hkept : (p.2.filter (fun e => beforeSeq ≤ e.seq)).Sublist p.1.events := List.filter_sublist.trans h.kept
    unfold FileStore.compactBefore
    by_cases hzero : beforeSeq = 0
    · rw [if_pos hzero]
      exact ⟨h.renamed, h.written, h.fits, hkept⟩
    · rw [if_neg hzero]
      cases fault with
      | none =>
        refine ⟨rfl, rfl, ?_, h.kept.filter _⟩
        intro e he
        exact h.fits e (List.mem_filter.mp he).1
      | some step =>
        have hbefore : step.afterRename = false := hsafe step rfl
        cases step with
        | reopen | seek | clone => simp [CompactStep.afterRename] at hbefore
        | _ => exact ⟨h.renamed, h.written, h.fits, hkept⟩

/-- In every run of appends and compactions in which no compaction fails after its rename, a reopen returns
every event that no compaction was asked to discard, as long as the loader accepts their records. -/
theorem compaction_failure_safe (codec : RecordCodec Event) (calls : List FileCall) (s : FileStore) (kept : List Event)
    (hrun : Transition.run (callFile codec) (FileStore.fresh, []) calls = some (s, kept))
    (hsafe : Transition.Meets (callFile codec) (fun p c => c.Safe codec p.1) (FileStore.fresh, []) calls) :
    ∃ r, s.reopen codec = .ok r ∧ kept.Sublist r.events := by
  have hfresh : Attached codec (FileStore.fresh, []) := ⟨rfl, rfl, by simp [FileStore.fresh], List.Sublist.refl _⟩
  have h := Transition.run_invariant (fun _ _ _ hs hc hstep => Attached.step hs hc hstep) hfresh hsafe hrun
  have hdisk : s.onDisk = codec.frames s.events := by
    rw [FileStore.onDisk, h.renamed]
    exact h.written
  rw [FileStore.reopen, hdisk, openFile_frames h.fits]
  exact ⟨_, rfl, h.kept⟩

namespace Scenario

/-- A compaction fails at the given step, between two appends. -/
def compactionFails (step : CompactStep) : List FileCall :=
  [.append 5 [smallEvent 0 11], .compactBefore 1 (some step), .append 5 [smallEvent 0 12]]

end Scenario

open Scenario in
/-- The compaction renames its file over the log and then cannot open it; the next append returns `Ok` and a
reopen does not find it. -/
theorem compaction_failure_loses :
    ∃ (codec : RecordCodec Event) (s : FileStore) (kept : List Event) (r : FileStore),
      Transition.run (callFile codec) (FileStore.fresh, []) (compactionFails .reopen) = some (s, kept) ∧
      kept = [smallEvent 1 11, smallEvent 2 12] ∧ s.reopen codec = .ok r ∧ r.events = [smallEvent 1 11] := by
  obtain ⟨codec, hfits⟩ := exists_fitting [smallEvent 1 11] (by decide)
  exact ⟨codec, _, _, _, rfl, rfl, openFile_frames hfits, rfl⟩

open Scenario in
theorem compaction_failure_safe_tmp :
    ∃ (codec : RecordCodec Event) (s : FileStore) (kept : List Event) (r : FileStore),
      Transition.run (callFile codec) (FileStore.fresh, []) (compactionFails .syncTmp) = some (s, kept) ∧
      kept = [smallEvent 1 11, smallEvent 2 12] ∧ s.reopen codec = .ok r ∧ kept.Sublist r.events := by
  obtain ⟨codec, hfits⟩ := exists_fitting [smallEvent 1 11, smallEvent 2 12] (by decide)
  have hsafe : Transition.Meets (callFile codec) (fun p c => c.Safe codec p.1) (FileStore.fresh, [])
      (compactionFails .syncTmp) := by
    refine ⟨fun e he => ?_, fun t ht => ⟨fun step hstep => ?_, fun u hu => ⟨fun e he => ?_, fun _ _ => trivial⟩⟩⟩
    · exact hfits e (List.mem_cons.mpr (Or.inl (List.mem_singleton.mp he)))
    · cases Option.some.inj hstep
      rfl
    · cases Option.some.inj ht
      cases Option.some.inj hu
      exact hfits e (List.mem_cons_of_mem _ he)
  obtain ⟨r, hr⟩ := compaction_failure_safe codec (compactionFails .syncTmp) _ [smallEvent 1 11, smallEvent 2 12] rfl hsafe
  exact ⟨codec, _, _, r, rfl, rfl, hr⟩

end DarkPool
