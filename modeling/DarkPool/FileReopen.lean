import Mathlib.Data.Rat.Encodable
import Mathlib.Tactic.DeriveCountable
import DarkPool.FileStore
import DarkPool.System

namespace DarkPool

/-- A call on a store that returns `Ok`. -/
inductive StoreCall
  | append (clock : DateTime) (events : List Event)
  | compactBefore (beforeSeq : Nat)

/-- The in-memory store. -/
def Store.call (store : Store) : StoreCall → Store
  | .append clock events => ⟨store.events ++ stamp clock store.seq events, store.seq + events.length⟩
  | .compactBefore beforeSeq => store.compactBefore beforeSeq

def FileStore.call (codec : RecordCodec Event) (s : FileStore) : StoreCall → FileStore
  | .append clock events => (s.append codec ⟨clock, events, .success⟩).1
  | .compactBefore beforeSeq => (s.compactBefore codec beforeSeq none).1

/-- A compaction does not go past the last sequence number. -/
def StoreCall.Within (store : Store) : StoreCall → Prop
  | .append _ _ => True
  | .compactBefore beforeSeq => beforeSeq ≤ store.lastSeq

/-- Both stores under the same call. -/
def callBoth (codec : RecordCodec Event) (s : FileStore × Store) (c : StoreCall) : Option (FileStore × Store) :=
  some (s.1.call codec c, s.2.call c)

section Mirrors

variable {codec : RecordCodec Event} {s : FileStore} {store : Store}

theorem writeRecords_none (es : List Event) : FileStore.writeRecords codec none es = (codec.frames es, true) := by
  induction es with
  | nil => rfl
  | cons e es ih => rw [FileStore.writeRecords, ih, RecordCodec.frames_cons]

theorem append_success (s : FileStore) (clock : DateTime) (events : List Event) :
    s.append codec ⟨clock, events, .success⟩ =
      (⟨s.written ++ codec.frames (Store.stamp clock s.seq events),
        (s.written ++ codec.frames (Store.stamp clock s.seq events)).length,
        s.events ++ Store.stamp clock s.seq events, s.seq + events.length, s.renamed⟩,
        some (Store.stamp clock s.seq events)) := by
  simp [FileStore.append, AppendOutcome.success, writeRecords_none]

/-- The file holds the events of the store, in order. -/
structure FileStore.Mirrors (codec : RecordCodec Event) (s : FileStore) (store : Store) : Prop where
  written : s.written = codec.frames store.events
  events : s.events = store.events
  seq : s.seq = store.seq
  renamed : s.renamed = none

theorem mirrors_fresh : FileStore.fresh.Mirrors codec Store.empty := ⟨rfl, rfl, rfl, rfl⟩

theorem FileStore.Mirrors.call (h : s.Mirrors codec store) (c : StoreCall) : (s.call codec c).Mirrors codec (store.call c) := by
  cases c with
  | append clock events =>
    rw [FileStore.call, append_success]
    constructor
    · dsimp only [Store.call]
      rw [h.written, h.seq, RecordCodec.frames_append]
    · dsimp only [Store.call]
      rw [h.events, h.seq]
    · dsimp only [Store.call]
      rw [h.seq]
    · exact h.renamed
  | compactBefore beforeSeq =>
    rw [FileStore.call, FileStore.compactBefore, Store.call, Store.compactBefore]
    by_cases hzero : beforeSeq = 0
    · rw [if_pos hzero, if_pos hzero]
      exact h
    · rw [if_neg hzero, if_neg hzero]
      dsimp only
      rw [h.events]
      exact ⟨rfl, rfl, h.seq, rfl⟩

/-- The store holds the end of its log, and has an event unless it never had one. -/
structure Store.Tailed (store : Store) : Prop where
  holds : ∃ dropped, store.Holds dropped
  tail : store.events = [] → store.seq = 0

theorem tailed_empty : Store.empty.Tailed := ⟨⟨[], Store.holds_empty⟩, fun _ => rfl⟩

theorem Store.Tailed.call (h : store.Tailed) {c : StoreCall} (hc : c.Within store) : (store.call c).Tailed := by
  obtain ⟨dropped, hholds⟩ := h.holds
  cases c with
  | append clock events =>
    have hlogs : store.Logs (store.call (.append clock events)) (stamp clock store.seq events) := by
      refine ⟨rfl, numbered_stamp clock store.seq events, ?_⟩
      rw [length_stamp]
      rfl
    refine ⟨⟨dropped, hholds.logs hlogs⟩, fun hnil => ?_⟩
    obtain ⟨hold, hnew⟩ := List.append_eq_nil_iff.mp hnil
    have hlen := length_stamp clock store.seq events
    rw [hnew, List.length_nil] at hlen
    have hseq : (store.call (.append clock events)).seq = store.seq + events.length := rfl
    rw [hseq, h.tail hold]
    omega
  | compactBefore beforeSeq =>
    refine ⟨⟨_, (hholds.compact beforeSeq).1⟩, fun hnil => ?_⟩
    have hseq : (store.call (.compactBefore beforeSeq)).seq = store.seq := (compactBefore_events store beforeSeq).2
    rw [hseq]
    refine h.tail ?_
    by_contra hne
    exact hholds.compact_ne_nil hc hne hnil

/-- The sequence number a reopen reads off the events is that of the store. -/
theorem Store.Tailed.foldl_seq (h : store.Tailed) : store.events.foldl (fun seq e => max seq e.seq) 0 = store.seq := by
  obtain ⟨dropped, hholds⟩ := h.holds
  rw [foldl_max_seq hholds.numbered 0 (Nat.zero_le _)]
  by_cases hnil : store.events = []
  · rw [if_pos hnil, h.tail hnil]
  · rw [if_neg hnil, hholds.2]

/-- The store that is opened on what the loader read. -/
def FileStore.opened (file : Bytes) (l : List Event × Nat) : FileStore where
  written := file.take l.2
  synced := l.2
  events := l.1
  seq := l.1.foldl (fun seq e => max seq e.seq) 0
  renamed := none

theorem openFile_eq_ok {file : Bytes} {r : FileStore} :
    FileStore.openFile codec file = .ok r ↔
      ∃ l, codec.load maxRecordBytes file 0 = .ok l ∧ r = FileStore.opened file l := by
  unfold FileStore.openFile FileStore.loadAndTruncate
  cases codec.load maxRecordBytes file 0 with
  | error e => simp [Except.map]
  | ok l =>
    simp only [Except.map, Except.ok.injEq, exists_eq_left']
    exact eq_comm

/-- A file of records that the loader accepts is read back. -/
theorem openFile_frames {es : List Event} (h : ∀ e ∈ es, codec.Fits maxRecordBytes e) :
    FileStore.openFile codec (codec.frames es) =
      .ok (FileStore.opened (codec.frames es) (es, (codec.frames es).length)) := by
  refine openFile_eq_ok.mpr ⟨_, ?_, rfl⟩
  have hload := codec.load_frames maxRecordBytes_lt h [] 0
  rw [RecordCodec.load_nil, List.append_nil, Nat.zero_add] at hload
  simpa only [Except.map, List.append_nil] using hload

end Mirrors

/-- Closing and reopening the file store gives the events and the last sequence number of the in-memory
store exactly if every event still in the log has a record that the loader accepts. -/
theorem reopen_eq_mem_iff (codec : RecordCodec Event) (calls : List StoreCall) (s : FileStore) (store : Store)
    (hrun : Transition.run (callBoth codec) (FileStore.fresh, Store.empty) calls = some (s, store))
    (hwithin : Transition.Meets (callBoth codec) (fun s c => c.Within s.2) (FileStore.fresh, Store.empty) calls) :
    (∃ r, s.reopen codec = .ok r ∧ r.events = store.events ∧ r.lastSeq = store.lastSeq) ↔
      ∀ e ∈ store.events, codec.Fits maxRecordBytes e := by
  obtain ⟨hmirrors, htailed⟩ : s.Mirrors codec store ∧ store.Tailed := by
    refine Transition.run_invariant (I := fun p => p.1.Mirrors codec p.2 ∧ p.2.Tailed) ?_ ⟨mirrors_fresh, tailed_empty⟩
      hwithin hrun
    rintro ⟨s, store⟩ c p ⟨hmirrors, htailed⟩ hc hstep
    cases Option.some.inj hstep
    exact ⟨hmirrors.call c, htailed.call hc⟩
  have hdisk : s.onDisk = codec.frames store.events := by
    rw [FileStore.onDisk, hmirrors.renamed]
    exact hmirrors.written
  constructor
  · rintro ⟨r, hr, hevents, -⟩
    obtain ⟨l, hload, rfl⟩ := openFile_eq_ok.mp hr
    rw [hdisk, ← List.append_nil (codec.frames store.events)] at hload
    exact codec.fits_of_load maxRecordBytes_lt hload (by rw [← hevents]; rfl)
  · intro hfits
    rw [FileStore.reopen, hdisk, openFile_frames hfits]
    exact ⟨_, rfl, rfl, htailed.foldl_seq⟩

section Records

instance countableBitVec (n : Nat) : Countable (BitVec n) := Function.Injective.countable (fun _ _ => BitVec.eq_of_toNat_eq)

instance countableUInt8 : Countable UInt8 := Function.Injective.countable (fun _ _ => UInt8.toNat_inj.mp)

instance countableUInt32 : Countable UInt32 := Function.Injective.countable (fun _ _ => UInt32.toNat_inj.mp)

instance countableChar : Countable Char := Function.Injective.countable (fun _ _ => Char.toNat_inj.mp)

instance countableString : Countable String := Function.Injective.countable (fun _ _ => String.toList_inj.mp)

deriving instance Countable for Fill, EventData, Event

/-- The bytes that an event carries. -/
def Event.payloadBytes (e : Event) : Nat :=
  match e.data with
  | .orderPlaced _ commitment proof ciphertext => commitment.length + proof.length + ciphertext.length
  | .batchSubmitted _ _ _ _ proof => proof.length
  | .batchFolded _ _ _ inputRoot => inputRoot.length
  | _ => 0

/-- A format in which the given events take little more than the bytes they carry. -/
theorem exists_eventCodec (es : List Event) :
    ∃ codec : RecordCodec Event, (∀ e ∈ es, (codec.serialize e).length ≤ es.length + e.payloadBytes) ∧
      ∀ e, e.payloadBytes < (codec.serialize e).length := RecordCodec.exists_codec es Event.payloadBytes

/-- A format in which the loader accepts the given events, none of which carries bytes. -/
theorem exists_fitting (es : List Event) (hes : es.length ≤ maxRecordBytes ∧ ∀ e ∈ es, e.payloadBytes = 0) :
    ∃ codec : RecordCodec Event, ∀ e ∈ es, codec.Fits maxRecordBytes e := by
  obtain ⟨codec, hshort, -⟩ := exists_eventCodec es
  refine ⟨codec, fun e he => ?_⟩
  have hle := hshort e he
  rw [hes.2 e he, Nat.add_zero] at hle
  exact hle.trans hes.1

end Records

namespace Scenario

def smallEvent (seq : Nat) (id : Uuid) : Event := ⟨seq, 5, .orderExpired id⟩

/-- An order with the given proof, as the store numbers it first. -/
def provenEvent (proof : Bytes) : Event := ⟨1, 5, .orderPlaced 11 [] proof []⟩

/-- Two events, of which the first is compacted away. -/
def compacting : List StoreCall := [.append 5 [smallEvent 0 11, smallEvent 0 12], .compactBefore 2]

end Scenario

open Scenario in
/-- An order whose proof has 16 MiB is appended and stays in memory; a reopen finds an empty log. -/
theorem reopen_loses_large_record :
    ∃ (codec : RecordCodec Event) (proof : Bytes) (s : FileStore) (store : Store) (r : FileStore),
      Transition.run (callBoth codec) (FileStore.fresh, Store.empty) [.append 5 [provenEvent proof]] = some (s, store) ∧
      store.events = [provenEvent proof] ∧ store.lastSeq = 1 ∧
      s.reopen codec = .ok r ∧ r.events = [] ∧ r.lastSeq = 0 := by
  obtain ⟨proof, hproof⟩ : ∃ proof : Bytes, proof.length = maxRecordBytes :=
    ⟨List.replicate maxRecordBytes 0, List.length_replicate⟩
  obtain ⟨codec, hshort, hlong⟩ := exists_eventCodec [provenEvent proof]
  have hcarries : (provenEvent proof).payloadBytes = maxRecordBytes := by simp [provenEvent, Event.payloadBytes, hproof]
  have hupper := hshort _ List.mem_cons_self
  have hlower := hlong (provenEvent proof)
  rw [hcarries] at hupper hlower
  have hends : ∀ n, codec.Ends maxRecordBytes (provenEvent proof) n := by
    intro n
    have hlen : (codec.serialize (provenEvent proof)).length = maxRecordBytes + 1 := by
      rw [List.length_singleton] at hupper
      omega
    rw [RecordCodec.Ends, hlen]
    exact Or.inr (Or.inl (by decide))
  have hload := codec.load_take maxRecordBytes_lt (provenEvent proof) [] (codec.frame (provenEvent proof) ++ []).length 0
  rw [List.take_length, if_pos (hends _)] at hload
  exact ⟨codec, proof, _, _, _, rfl, rfl, rfl, openFile_eq_ok.mpr ⟨_, hload, rfl⟩, rfl, rfl⟩

open Scenario in
theorem reopen_eq_mem_compacted :
    ∃ (codec : RecordCodec Event) (s : FileStore) (store : Store) (r : FileStore),
      Transition.run (callBoth codec) (FileStore.fresh, Store.empty) compacting = some (s, store) ∧
      store.lastSeq = 2 ∧ s.reopen codec = .ok r ∧ r.events = store.events ∧ r.lastSeq = store.lastSeq := by
  obtain ⟨codec, hfits⟩ := exists_fitting [smallEvent 2 12] (by decide)
  have hwithin : Transition.Meets (callBoth codec) (fun s c => c.Within s.2) (FileStore.fresh, Store.empty) compacting := by
    refine ⟨trivial, fun t ht => ⟨?_, fun _ _ => trivial⟩⟩
    cases Option.some.inj ht
    exact le_rfl
  obtain ⟨r, hr⟩ := (reopen_eq_mem_iff codec compacting _ ⟨[smallEvent 2 12], 2⟩ rfl hwithin).mpr hfits
  exact ⟨codec, _, _, r, rfl, rfl, hr⟩

end DarkPool
