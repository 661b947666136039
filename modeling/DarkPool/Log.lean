import DarkPool.Recover

namespace DarkPool

def Event.withSeq (e : Event) (seq : Nat) : Event := { e with seq := seq }

/-- The events carry the sequence numbers from `n + 1` on. -/
def Numbered (n : Nat) (events : List Event) : Prop :=
  events.map Event.seq = List.range' (n + 1) events.length

theorem numbered_nil (n : Nat) : Numbered n [] := rfl

theorem numbered_cons {n : Nat} {e : Event} {events : List Event} :
    Numbered n (e :: events) ↔ e.seq = n + 1 ∧ Numbered (n + 1) events := by
  simp [Numbered, List.range'_succ]

theorem numbered_append {n : Nat} {xs ys : List Event} :
    Numbered n (xs ++ ys) ↔ Numbered n xs ∧ Numbered (n + xs.length) ys := by
  induction xs generalizing n with
  | nil => simp [numbered_nil]
  | cons x xs ih =>
    rw [List.cons_append, numbered_cons, numbered_cons, ih, List.length_cons, and_assoc,
      show n + 1 + xs.length = n + (xs.length + 1) by omega]

theorem Numbered.lt_of_mem {n : Nat} {events : List Event} (h : Numbered n events) {e : Event}
    (he : e ∈ events) : n < e.seq ∧ e.seq ≤ n + events.length := by
  have hmem : e.seq ∈ List.range' (n + 1) events.length := by
    rw [← h]
    exact List.mem_map.mpr ⟨e, he, rfl⟩
  rw [List.mem_range'_1] at hmem
  omega

namespace Store

theorem numbered_stamp (clock : DateTime) (n : Nat) (events : List Event) :
    Numbered n (stamp clock n events) := by
  induction events generalizing n with
  | nil => rfl
  | cons e events ih => exact numbered_cons.mpr ⟨rfl, ih (n + 1)⟩

@[simp] theorem length_stamp (clock : DateTime) (n : Nat) (events : List Event) :
    (stamp clock n events).length = events.length := by
  induction events generalizing n with
  | nil => rfl
  | cons e events ih => simp [stamp, ih]

/-- An event that has a timestamp keeps it. -/
theorem assignSeqAndTimestamp_eq {e : Event} (clock : DateTime) (n : Nat) (h : 0 < e.timestamp) :
    assignSeqAndTimestamp clock n e = e.withSeq (n + 1) := by
  have hne : e.timestamp ≠ 0 := ne_of_gt h
  simp [assignSeqAndTimestamp, Event.withSeq, hne]

theorem stamp_singleton {e : Event} (clock : DateTime) (n : Nat) (h : 0 < e.timestamp) :
    stamp clock n [e] = [e.withSeq (n + 1)] := by
  rw [stamp, assignSeqAndTimestamp_eq clock n h]
  rfl

theorem stamp_append (clock : DateTime) (n : Nat) (xs ys : List Event) :
    stamp clock n (xs ++ ys) = stamp clock n xs ++ stamp clock (n + xs.length) ys := by
  induction xs generalizing n with
  | nil => rfl
  | cons x xs ih =>
    rw [List.cons_append, stamp, ih, stamp, List.cons_append, List.length_cons,
      show n + 1 + xs.length = n + (xs.length + 1) by omega]

theorem data_stamp (clock : DateTime) (n : Nat) (events : List Event) :
    (stamp clock n events).map Event.data = events.map Event.data := by
  induction events generalizing n with
  | nil => rfl
  | cons e events ih => rw [stamp, List.map_cons, List.map_cons, ih (n + 1)]; rfl

theorem forall_data_stamp {clock : DateTime} {n : Nat} {events : List Event} (P : EventData → Prop)
    (h : ∀ e ∈ events, P e.data) : ∀ e ∈ stamp clock n events, P e.data := by
  have hdata := data_stamp clock n events
  intro e he
  have hmem : e.data ∈ events.map Event.data := hdata ▸ List.mem_map_of_mem he
  obtain ⟨e', he', heq⟩ := List.mem_map.mp hmem
  exact heq ▸ h e' he'

/-- The store holds the end of a log whose beginning `dropped` was compacted away. -/
def Holds (store : Store) (dropped : List Event) : Prop :=
  Numbered 0 (dropped ++ store.events) ∧ store.seq = dropped.length + store.events.length

/-- The store took the events `es` at the end of its log. -/
structure Logs (store store' : Store) (es : List Event) : Prop where
  events : store'.events = store.events ++ es
  numbered : Numbered store.seq es
  seq : store'.seq = store.seq + es.length

theorem holds_empty : Store.empty.Holds [] := ⟨rfl, rfl⟩

end Store

theorem appendEvents_eq_ok {store store' : Store} {clock : DateTime} {ok : Bool} {events stamped : List Event} :
    appendEvents store clock ok events = .ok (store', stamped) ↔
      ok = true ∧ stamped = Store.stamp clock store.seq events ∧
        store' = ⟨store.events ++ stamped, store.seq + events.length⟩ := by
  cases ok with
  | false => simp [appendEvents, Store.append]
  | true =>
    simp only [appendEvents, Store.append, if_true, Except.ok.injEq, Prod.mk.injEq, true_and]
    constructor
    · rintro ⟨rfl, rfl⟩
      exact ⟨rfl, rfl⟩
    · rintro ⟨rfl, rfl⟩
      exact ⟨rfl, rfl⟩

namespace Store

theorem Holds.logs {store store' : Store} {dropped es : List Event} (h : store.Holds dropped)
    (hlogs : store.Logs store' es) : store'.Holds dropped := by
  constructor
  · rw [hlogs.events, ← List.append_assoc, numbered_append]
    refine ⟨h.1, ?_⟩
    rw [List.length_append, ← h.2, Nat.zero_add]
    exact hlogs.numbered
  · rw [hlogs.seq, hlogs.events, List.length_append, h.2]
    omega

theorem Holds.numbered {store : Store} {dropped : List Event} (h : store.Holds dropped) :
    Numbered dropped.length store.events := by
  have hsplit := (numbered_append.mp h.1).2
  rwa [Nat.zero_add] at hsplit

/-- The events after a sequence number, if compaction did not reach them. -/
theorem Holds.numbered_drop {store : Store} {dropped : List Event} (h : store.Holds dropped) {afterSeq : Nat}
    (hafter : dropped.length ≤ afterSeq) (hlast : afterSeq ≤ store.seq) :
    Numbered afterSeq (store.events.drop (afterSeq - dropped.length)) := by
  have hnum := h.numbered
  have hlen : afterSeq - dropped.length ≤ store.events.length := by
    have := h.2
    omega
  rw [← List.take_append_drop (afterSeq - dropped.length) store.events, numbered_append, List.length_take,
    min_eq_left hlen, show dropped.length + (afterSeq - dropped.length) = afterSeq by omega] at hnum
  exact hnum.2

theorem length_takeWhile_seq {n k : Nat} {events : List Event} (h : Numbered n events) :
    (events.takeWhile (fun e => e.seq ≤ k)).length = min (k - n) events.length := by
  induction events generalizing n with
  | nil => simp
  | cons e events ih =>
    obtain ⟨hseq, hrest⟩ := numbered_cons.mp h
    rw [List.takeWhile_cons, hseq]
    by_cases hk : n + 1 ≤ k
    · simp only [hk, decide_true, if_true, List.length_cons, ih hrest]
      omega
    · simp only [hk, decide_false, Bool.false_eq_true, if_false, List.length_nil]
      omega

/-- Reading after `afterSeq` returns the next events of the log, if compaction did not reach them. -/
theorem Holds.readFrom {store : Store} {dropped : List Event} (h : store.Holds dropped) {afterSeq limit : Nat}
    (hafter : dropped.length ≤ afterSeq) (hlimit : limit ≠ 0) :
    store.readFrom afterSeq limit = some ((store.events.drop (afterSeq - dropped.length)).take limit) := by
  have hnum := h.numbered
  have hindex : indexAfter store.events afterSeq = min (afterSeq - dropped.length) store.events.length := by
    unfold indexAfter
    split
    next h0 => omega
    next => exact length_takeWhile_seq hnum
  have hdrop : store.events.drop (min (afterSeq - dropped.length) store.events.length) =
      store.events.drop (afterSeq - dropped.length) := by
    rcases le_total (afterSeq - dropped.length) store.events.length with hle | hle
    · rw [min_eq_left hle]
    · rw [min_eq_right hle, List.drop_eq_nil_of_le hle, List.drop_eq_nil_of_le le_rfl]
  rw [Store.readFrom, if_neg hlimit, hindex, hdrop]

end Store

theorem replayAll_append (env : Env) (r : Replay) (xs ys : List Event) :
    replayAll env r (xs ++ ys) = replayAll env r xs >>= fun r => replayAll env r ys := List.foldlM_append

/-- With a bound above the number of events left, the read loop replays exactly those. -/
theorem replayLoop_eq {env : Env} {store : Store} {dropped : List Event} (h : store.Holds dropped) (fuel : Nat)
    {afterSeq : Nat} (hafter : dropped.length ≤ afterSeq)
    (hfuel : (store.events.drop (afterSeq - dropped.length)).length < fuel) (r : Replay) :
    replayLoop env store fuel afterSeq r = replayAll env r (store.events.drop (afterSeq - dropped.length)) := by
  induction fuel generalizing afterSeq r with
  | zero => omega
  | succ fuel ih =>
    generalize htail : store.events.drop (afterSeq - dropped.length) = tail at hfuel ⊢
    have hread := h.readFrom hafter (show recoverBatch ≠ 0 by decide)
    rw [htail] at hread
    rw [replayLoop, hread]
    simp only
    cases hlast : (tail.take recoverBatch).getLast? with
    | none =>
      have hnil : tail = [] := by
        rw [List.getLast?_eq_none_iff, List.take_eq_nil_iff] at hlast
        exact hlast.resolve_left (by decide)
      rw [hnil]
      rfl
    | some last =>
      -- The last event of the batch numbers what the batch took from the tail.
      obtain ⟨front, hfront⟩ := List.getLast?_eq_some_iff.mp hlast
      have hlen : front.length + 1 = min recoverBatch tail.length := by
        rw [← List.length_take, hfront, List.length_append, List.length_singleton]
      have hstart : afterSeq - dropped.length ≤ store.events.length := by
        by_contra hbig
        rw [List.drop_eq_nil_of_le (by omega)] at htail
        rw [← htail] at hlen
        simp at hlen
      have htnum : Numbered afterSeq tail := by
        rw [← htail]
        exact h.numbered_drop hafter (by have := h.2; omega)
      have hseq : last.seq = afterSeq + (front.length + 1) := by
        have htake : Numbered afterSeq (front ++ [last]) := by
          rw [← List.take_append_drop recoverBatch tail, numbered_append] at htnum
          rw [← hfront]
          exact htnum.1
        have := (numbered_cons.mp (numbered_append.mp htake).2).1
        omega
      have hrest : store.events.drop (last.seq - dropped.length) = tail.drop recoverBatch := by
        rw [hseq, show afterSeq + (front.length + 1) - dropped.length =
          (afterSeq - dropped.length) + (front.length + 1) by omega, ← List.drop_drop, htail, hlen]
        rcases le_total recoverBatch tail.length with hle | hle
        · rw [min_eq_left hle]
        · rw [min_eq_right hle, List.drop_eq_nil_of_le hle, List.drop_eq_nil_of_le le_rfl]
      have hnext : ∀ r, replayLoop env store fuel last.seq r = replayAll env r (tail.drop recoverBatch) := by
        intro r
        rw [ih (by omega) (by rw [hrest, List.length_drop]; omega) r, hrest]
      simp only [hnext]
      rw [← replayAll_append, List.take_append_drop]

end DarkPool
