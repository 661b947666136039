import DarkPool.HistoryRuns

namespace DarkPool

namespace HistoryDb

variable (lookup : String → Lookup) (clock : String → Decimal) {db : HistoryDb}

/-- The stored fills of an order account for what the remote answers. -/
def Settled (lookup : String → Lookup) (db : HistoryDb) (r : OrderRecord) : Prop :=
  match lookup r.id with
  | .found remainingSize => r.size - remainingSize ≤ db.filled r.id
  | .notFound => False
  | .failed => True

/-- An open record is skipped or reconciled. -/
theorem backfillRecord_cases (db : HistoryDb) {r : OrderRecord} (hopen : r.status = .opened) :
    (lookup r.id = .failed ∧ backfillRecord lookup clock db r = db) ∨
    ∃ remote result, (lookup r.id).remote = some remote ∧
      Reconciled r (db.filled r.id) (clock r.id) remote result ∧
      backfillRecord lookup clock db r = db.applyReconciliation result := by
  unfold backfillRecord
  cases hlookup : lookup r.id with
  | found x => exact .inr ⟨some x, _, rfl, reconcileOrder_reconciled hopen _ _, rfl⟩
  | notFound => exact .inr ⟨none, _, rfl, reconcileOrder_reconciled hopen _ _, rfl⟩
  | failed => exact .inl ⟨rfl, rfl⟩

theorem Keyed.backfillRecord {r : OrderRecord} (h : db.Keyed) (hopen : r.status = .opened) :
    (backfillRecord lookup clock db r).Keyed := by
  rcases backfillRecord_cases lookup clock db hopen with ⟨-, heq⟩ | ⟨remote, result, -, hres, heq⟩
  · rw [heq]
    exact h
  · rw [heq]
    exact h.applyReconciliation hres

/-- Other orders keep their record and their fills. -/
theorem Keyed.backfillRecord_of_ne {r : OrderRecord} {id : String} (h : db.Keyed) (hopen : r.status = .opened)
    (hid : id ≠ r.id) : (HistoryDb.backfillRecord lookup clock db r).filled id = db.filled id ∧
      (HistoryDb.backfillRecord lookup clock db r).orders.lookup id = db.orders.lookup id := by
  rcases backfillRecord_cases lookup clock db hopen with ⟨-, heq⟩ | ⟨remote, result, -, hres, heq⟩
  · rw [heq]
    exact ⟨rfl, rfl⟩
  · rw [heq]
    refine ⟨h.filled_of_ne hres hid, ?_⟩
    rw [HistoryDb.applyReconciliation, Table.lookup_insert_eq, hres.record_id.1, if_neg hid]

/-- If the record is still open after its turn, its fills account for the answer. -/
theorem Keyed.settled_backfillRecord {r r' : OrderRecord} (h : db.Keyed) (hopen : r.status = .opened)
    (hlookup : (HistoryDb.backfillRecord lookup clock db r).orders.lookup r.id = some r') (hopen' : r'.status = .opened) :
    Settled lookup (HistoryDb.backfillRecord lookup clock db r) r' := by
  have hid : r'.id = r.id := (h.backfillRecord lookup clock hopen).ids hlookup
  rcases backfillRecord_cases lookup clock db hopen with
    ⟨hfailed, -⟩ | ⟨remote, result, hremote, hres, heq⟩
  · simp only [Settled, hid, hfailed]
  · rw [heq] at hlookup ⊢
    rw [HistoryDb.applyReconciliation, Table.lookup_insert_eq, hres.record_id.1, if_pos rfl] at hlookup
    cases Option.some.inj hlookup
    rcases h.filled_self hres with ⟨x, rfl, hrecord, hfilled⟩ | ⟨hstatus, -⟩ | ⟨hstatus, -⟩
    · have hfound : lookup r.id = .found x := by
        cases hl : lookup r.id with
        | found y =>
          rw [hl] at hremote
          cases Option.some.inj hremote
          rfl
        | notFound =>
          rw [hl] at hremote
          cases Option.some.inj hremote
        | failed =>
          rw [hl] at hremote
          cases hremote
      simp only [Settled, hid, hfound, hfilled, hres.record_id.2]
      exact le_max_right _ _
    · exact absurd (hstatus.symm.trans hopen') (by decide)
    · exact absurd (hstatus.symm.trans hopen') (by decide)

/-- A run over distinct open records: the orders it passes are settled or no longer open, and the others are
as they were. -/
theorem Keyed.foldl_backfillRecord (worklist : List OrderRecord) (h : db.Keyed)
    (hopen : ∀ r ∈ worklist, r.status = .opened) (hnodup : (worklist.map OrderRecord.id).Nodup) :
    (∀ id, id ∉ worklist.map OrderRecord.id →
      (worklist.foldl (HistoryDb.backfillRecord lookup clock) db).filled id = db.filled id ∧
      (worklist.foldl (HistoryDb.backfillRecord lookup clock) db).orders.lookup id = db.orders.lookup id) ∧
    (worklist.foldl (HistoryDb.backfillRecord lookup clock) db).Keyed ∧
    ∀ id ∈ worklist.map OrderRecord.id, ∀ r',
      (worklist.foldl (HistoryDb.backfillRecord lookup clock) db).orders.lookup id = some r' → r'.status = .opened →
      Settled lookup (worklist.foldl (HistoryDb.backfillRecord lookup clock) db) r' := by
  induction worklist generalizing db with
  | nil => exact ⟨fun id _ => ⟨rfl, rfl⟩, h, by simp⟩
  | cons r worklist ih =>
    have hr := hopen r List.mem_cons_self
    obtain ⟨hnot, hrest⟩ := List.nodup_cons.mp hnodup
    obtain ⟨hothers, hkeyed, hsettled⟩ := ih (h.backfillRecord lookup clock hr)
      (fun r' hr' => hopen r' (List.mem_cons_of_mem r hr')) hrest
    rw [List.foldl_cons]
    refine ⟨?_, hkeyed, ?_⟩
    · intro id hid
      rw [List.map_cons, List.mem_cons, not_or] at hid
      obtain ⟨hfilled, hlookup⟩ := hothers id hid.2
      obtain ⟨hfilled', hlookup'⟩ := h.backfillRecord_of_ne lookup clock hr hid.1
      exact ⟨hfilled.trans hfilled', hlookup.trans hlookup'⟩
    · intro id hid r' hlookup hopen'
      rw [List.map_cons, List.mem_cons] at hid
      rcases hid with rfl | hid
      · obtain ⟨hfilled, hsame⟩ := hothers r.id hnot
        rw [hsame] at hlookup
        have hid' : r'.id = r.id := (h.backfillRecord lookup clock hr).ids hlookup
        have hstep := h.settled_backfillRecord lookup clock hr hlookup hopen'
        simp only [Settled, hid', hfilled] at hstep ⊢
        exact hstep
      · exact hsettled id hid r' hlookup hopen'

/-- Nothing is synthesized for orders that are settled. -/
theorem foldl_backfillRecord_fills (worklist : List OrderRecord) (hopen : ∀ r ∈ worklist, r.status = .opened)
    (hsettled : ∀ r ∈ worklist, Settled lookup db r) :
    (worklist.foldl (backfillRecord lookup clock) db).fills = db.fills := by
  induction worklist generalizing db with
  | nil => rfl
  | cons r worklist ih =>
    have hfills : (backfillRecord lookup clock db r).fills = db.fills := by
      have hr := hsettled r List.mem_cons_self
      have hterminal : isTerminal r.status = false := by simp [isTerminal, hopen r List.mem_cons_self]
      cases hlookup : lookup r.id with
      | found x =>
        simp only [Settled, hlookup] at hr
        have hnone : synthesizeFill r (r.size - x) (accountedFilledSize (db.fillsForOrder r.id)) (clock r.id) = none :=
          synthesizeFill_eq_none.mpr hr
        simp [backfillRecord, hlookup, Lookup.remote, reconcileOrder, hterminal, hnone, applyReconciliation]
      | notFound => simp [Settled, hlookup] at hr
      | failed => simp [backfillRecord, hlookup, Lookup.remote]
    rw [List.foldl_cons, ih (fun r' hr' => hopen r' (List.mem_cons_of_mem r hr')), hfills]
    intro r' hr'
    have hold := hsettled r' (List.mem_cons_of_mem r hr')
    simp only [Settled, filled_congr hfills] at hold ⊢
    exact hold

theorem Keyed.worklist_nodup (h : db.Keyed) (trader : String) :
    ((db.listNonTerminalOrders trader).map OrderRecord.id).Nodup :=
  (Table.values_map_nodup h.ids).sublist (List.filter_sublist.map OrderRecord.id)

/-- A second run against a remote with the same answers stores no fill. -/
theorem Keyed.backfillTrader_rerun (h : db.Keyed) (trader : String) (clock' : String → Decimal) :
    ((db.backfillTrader trader lookup clock).backfillTrader trader lookup clock').fills =
      (db.backfillTrader trader lookup clock).fills := by
  have hopen := History.listNonTerminalOrders_opened db trader
  obtain ⟨hothers, hkeyed, hsettled⟩ := h.foldl_backfillRecord lookup clock (db.listNonTerminalOrders trader)
    hopen (h.worklist_nodup trader)
  refine foldl_backfillRecord_fills lookup clock' _ (History.listNonTerminalOrders_opened _ trader) ?_
  intro r hr
  simp only [listNonTerminalOrders, List.mem_filter, decide_eq_true_eq] at hr
  obtain ⟨hvalue, htrader, hstatus⟩ := hr
  obtain ⟨id, hlookup⟩ := Table.mem_values.mp hvalue
  by_cases hid : id ∈ (db.listNonTerminalOrders trader).map OrderRecord.id
  · exact hsettled id hid r hlookup hstatus
  · -- a record that the first run did not see would have been on its list
    have hold : db.orders.lookup id = some r := (hothers id hid).2.symm.trans hlookup
    have hmem : r ∈ db.listNonTerminalOrders trader := by
      simp only [listNonTerminalOrders, List.mem_filter, decide_eq_true_eq]
      exact ⟨Table.mem_values.mpr ⟨id, hold⟩, htrader, hstatus⟩
    exact absurd (List.mem_map.mpr ⟨r, hmem, h.ids hold⟩) hid

end HistoryDb

namespace History

/-- The steps of a run for the rest of its worklist. -/
def uninterrupted (i : Nat) (lookup : String → Lookup) (clock : String → Decimal) (worklist : List OrderRecord) :
    List Action :=
  worklist.flatMap (fun r => match lookup r.id with
    | .failed => [.lookup i .failed]
    | answer => [.lookup i answer, .readFills i (clock r.id), .write i])

/-- The remote answers within the size of the order. -/
def Answers (lookup : String → Lookup) (r : OrderRecord) : Prop :=
  ∀ x, lookup r.id = .found x → 0 ≤ x ∧ x ≤ r.size

/-- Steps of one run that nothing comes between do what the uninterrupted run does. -/
theorem run_uninterrupted (i : Nat) (lookup : String → Lookup) (clock : String → Decimal) (worklist : List OrderRecord)
    {s : History} (hi : s.runs[i]? = some (.looking worklist)) (hanswers : ∀ r ∈ worklist, Answers lookup r) :
    Transition.run step s (uninterrupted i lookup clock worklist) =
      some ⟨worklist.foldl (HistoryDb.backfillRecord lookup clock) s.db, s.runs.set i (.looking [])⟩ := by
  induction worklist generalizing s with
  | nil =>
    obtain ⟨hlt, hget⟩ := List.getElem?_eq_some_iff.mp hi
    rw [← hget, List.set_getElem_self]
    rfl
  | cons r worklist ih =>
    have hlt : i < s.runs.length := (List.getElem?_eq_some_iff.mp hi).1
    have hrest := fun r' hr' => hanswers r' (List.mem_cons_of_mem r hr')
    have hset : ∀ b, (s.runs.set i b)[i]? = some b := fun b => List.getElem?_set_self hlt
    have hreconciled : ∀ remote, (lookup r.id).remote = some remote →
        step s (.lookup i (lookup r.id)) = some { s with runs := s.runs.set i (.reading r remote worklist) } →
        Transition.run step s
          ([.lookup i (lookup r.id), .readFills i (clock r.id), .write i] ++ uninterrupted i lookup clock worklist) =
        some ⟨worklist.foldl (HistoryDb.backfillRecord lookup clock) (HistoryDb.backfillRecord lookup clock s.db r),
          s.runs.set i (.looking [])⟩ := by
      intro remote hremote hstep
      have hbackfill : HistoryDb.backfillRecord lookup clock s.db r = s.db.applyReconciliation
          (reconcileOrder r remote (accountedFilledSize (s.db.fillsForOrder r.id)) (clock r.id)) := by
        simp only [HistoryDb.backfillRecord, hremote]
      have hlast := ih (s := ⟨HistoryDb.backfillRecord lookup clock s.db r, s.runs.set i (.looking worklist)⟩)
        (hset _) hrest
      rw [List.set_set] at hlast
      have hread : step { s with runs := s.runs.set i (.reading r remote worklist) } (.readFills i (clock r.id)) =
          some { s with runs := s.runs.set i (.writing r (accountedFilledSize (s.db.fillsForOrder r.id))
            (reconcileOrder r remote (accountedFilledSize (s.db.fillsForOrder r.id)) (clock r.id)) worklist) } := by
        simp only [step, hset, List.set_set]
      refine Transition.run_cons.mpr ⟨_, hstep, Transition.run_cons.mpr ⟨_, hread, Transition.run_cons.mpr ⟨_, ?_, hlast⟩⟩⟩
      simp only [step, hset, List.set_set, hbackfill]
    rw [List.foldl_cons, uninterrupted, List.flatMap_cons]
    cases hlookup : lookup r.id with
    | failed =>
      have hlast := ih (s := { s with runs := s.runs.set i (.looking worklist) }) (hset _) hrest
      have hskip : HistoryDb.backfillRecord lookup clock s.db r = s.db := by
        simp only [HistoryDb.backfillRecord, hlookup, Lookup.remote]
      rw [List.set_set] at hlast
      rw [hskip]
      refine Transition.run_cons.mpr ⟨_, ?_, hlast⟩
      simp only [step, hi]
    | notFound =>
      rw [hlookup] at hreconciled
      exact hreconciled none rfl (by simp only [step, hi])
    | found x =>
      rw [hlookup] at hreconciled
      exact hreconciled (some x) rfl (by simp only [step, hi, if_pos (hanswers r List.mem_cons_self x hlookup)])

/-- A run of `backfillTrader` from its start to its end, with nothing in between. -/
theorem run_backfillTrader (s : History) (trader : String) (lookup : String → Lookup) (clock : String → Decimal)
    (hanswers : ∀ r ∈ s.db.listNonTerminalOrders trader, Answers lookup r) :
    Transition.run step s (.backfillTrader trader :: .list s.runs.length ::
        uninterrupted s.runs.length lookup clock (s.db.listNonTerminalOrders trader)) =
      some ⟨s.db.backfillTrader trader lookup clock, s.runs ++ [.looking []]⟩ := by
  have hset : ∀ b, (s.runs ++ [Backfill.listing trader]).set s.runs.length b = s.runs ++ [b] := by
    intro b
    rw [List.set_append_right _ _ le_rfl, Nat.sub_self]
    rfl
  have hlast := run_uninterrupted s.runs.length lookup clock (s.db.listNonTerminalOrders trader)
    (s := ⟨s.db, s.runs ++ [.looking (s.db.listNonTerminalOrders trader)]⟩) List.getElem?_concat_length hanswers
  rw [List.set_append_right _ _ le_rfl, Nat.sub_self] at hlast
  refine Transition.run_cons.mpr ⟨_, rfl, Transition.run_cons.mpr ⟨_, ?_, hlast⟩⟩
  simp only [step, List.getElem?_concat_length, hset]

/-- In every run that meets the condition a terminal record keeps its status, the fills of an order come to at
most its size, and a backfill that is run again against an unchanged remote stores no fill. -/
theorem run_history_consistent {s u t : History} {as bs : List Action} (hstart : s.db.Consistent) (hidle : s.runs = [])
    (hmeets : Transition.Meets step Undisturbed s (as ++ bs)) (hu : Transition.run step s as = some u)
    (ht : Transition.run step u bs = some t) :
    (∀ id r, u.db.orders.lookup id = some r → isTerminal r.status = true →
      ∃ r', t.db.orders.lookup id = some r' ∧ r'.status = r.status) ∧
    (∀ id r, t.db.orders.lookup id = some r → accountedFilledSize (t.db.fillsForOrder id) ≤ r.size) ∧
    ∀ trader lookup clock clock', ((t.db.backfillTrader trader lookup clock).backfillTrader trader lookup clock').fills =
      (t.db.backfillTrader trader lookup clock).fills := by
  have hs : s.Consistent := ⟨hstart, by simp [hidle]⟩
  obtain ⟨hfirst, hsecond⟩ := Transition.meets_append.mp hmeets
  have hsecond := hsecond u hu
  have hu : u.Consistent := Transition.run_invariant (fun _ _ _ h hc hst => step_consistent h hc hst) hs hfirst hu
  have ht' : t.Consistent := Transition.run_invariant (fun _ _ _ h hc hst => step_consistent h hc hst) hu hsecond ht
  refine ⟨?_, fun id r hr => ht'.db.covered hr, ?_⟩
  · intro id r hr hterminal
    have hstatus : r.status ≠ .opened := by simpa [isTerminal] using hterminal
    have hkept : t.Consistent ∧ t.db.orders.lookup id = some r :=
      Transition.run_invariant (I := fun v => v.Consistent ∧ v.db.orders.lookup id = some r)
        (fun v a w h hc hst => ⟨step_consistent h.1 hc hst, step_terminal h.1 hc hst h.2 hstatus⟩) ⟨hu, hr⟩ hsecond ht
    exact ⟨r, hkept.2, rfl⟩
  · intro trader lookup clock clock'
    exact ht'.db.toKeyed.backfillTrader_rerun lookup clock trader clock'

end History

namespace Scenario

def tracked : OrderRecord := ⟨"o", "t", .buy, 1, 10, 10, .opened, 0⟩

def observed (size : Decimal) (h : 0 < size) : FillRecord := ⟨.live "f", "o", "a", "t", .buy, 1, size, 0, h⟩

def booted : History := ⟨⟨AList.singleton "o" tracked, ∅⟩, []⟩

/-- The order is cancelled while the remote is asked about it. -/
def cancelling : List History.Action := [.backfillTrader "t", .list 0, .markOrderCancelled "o"]

def reopening : List History.Action := [.lookup 0 (.found 10), .readFills 0 0, .write 0]

/-- A live fill of the whole order comes between the fills that a run reads and its write. -/
def countingTwice : List History.Action :=
  [.backfillTrader "t", .list 0, .lookup 0 .notFound, .readFills 0 0, .applyFill (observed 10 (by norm_num)), .write 0]

/-- A partial fill, a backfill that finds more filled, and a cancellation. -/
def undisturbedRun : List History.Action :=
  [.applyFill (observed 4 (by norm_num)), .backfillTrader "t", .list 0, .lookup 0 (.found 5), .readFills 0 0, .write 0,
    .markOrderCancelled "o"]

theorem lookup_booted {id : String} {r : OrderRecord} (h : booted.db.orders.lookup id = some r) :
    id = "o" ∧ r = tracked := by
  rcases Table.lookup_insert_cases (t := ∅) h with heq | ⟨-, hempty⟩
  · exact heq
  · cases hempty

theorem booted_consistent : booted.db.Consistent := by
  have hfilled : ∀ id, booted.db.filled id = 0 := fun _ => rfl
  refine ⟨⟨?_, ?_⟩, ?_, ?_, ?_⟩
  · intro id r h
    obtain ⟨rfl, rfl⟩ := lookup_booted h
    rfl
  · intro id acc f h
    cases h
  · intro id r h
    obtain ⟨rfl, rfl⟩ := lookup_booted h
    norm_num [tracked]
  · intro id r h
    obtain ⟨rfl, rfl⟩ := lookup_booted h
    norm_num [hfilled, tracked]
  · intro id r h _
    obtain ⟨rfl, rfl⟩ := lookup_booted h
    norm_num [hfilled, tracked]

end Scenario

open Scenario in
/-- A backfill reopens an order that was cancelled while it waited, and counts a fill twice that came while it
waited. -/
theorem backfill_overwrites :
    booted.db.Consistent ∧
    (∃ u t, Transition.run History.step booted cancelling = some u ∧
      (u.db.orders.lookup "o").map OrderRecord.status = some .cancelled ∧
      Transition.run History.step u reopening = some t ∧
      (t.db.orders.lookup "o").map OrderRecord.status = some .opened) ∧
    ∃ t, Transition.run History.step booted countingTwice = some t ∧
      (t.db.orders.lookup "o").map OrderRecord.size = some 10 ∧
      accountedFilledSize (t.db.fillsForOrder "o") = 20 :=
  ⟨booted_consistent, ⟨_, _, rfl, rfl, rfl, rfl⟩, _, rfl, rfl, by decide +kernel⟩

open Scenario in
theorem run_history_consistent_cancelled :
    ∃ u t, Transition.run History.step booted undisturbedRun = some u ∧
      (u.db.orders.lookup "o").map OrderRecord.status = some .cancelled ∧
      Transition.run History.step u [.backfillTrader "t", .list 1] = some t ∧
      ∀ id r, t.db.orders.lookup id = some r → accountedFilledSize (t.db.fillsForOrder id) ≤ r.size := by
  have hrun : (Transition.run History.step booted undisturbedRun).any (fun u =>
      decide ((u.db.orders.lookup "o").map OrderRecord.status = some .cancelled) &&
        (Transition.run History.step u [.backfillTrader "t", .list 1]).isSome) = true := by decide +kernel
  have hmeets : Transition.Meets History.step History.Undisturbed booted
      (undisturbedRun ++ [.backfillTrader "t", .list 1]) := by decide +kernel
  obtain ⟨u, hu, hcheck⟩ := (Option.any_eq_true _ _).mp hrun
  simp only [Bool.and_eq_true, decide_eq_true_eq, Option.isSome_iff_exists] at hcheck
  obtain ⟨hstatus, t, ht⟩ := hcheck
  exact ⟨u, t, hu, hstatus, ht, (History.run_history_consistent booted_consistent rfl hmeets hu ht).2.1⟩

end DarkPool
