import DarkPool.HistoryDb

namespace DarkPool

/-- What a run holds was open when it was read, and it was told no more of it than was left. -/
def Backfill.Sound : Backfill → Prop
  | .listing _ => True
  | .looking worklist => ∀ r ∈ worklist, r.status = .opened
  | .reading record remote worklist =>
    record.status = .opened ∧ (∀ x, remote = some x → 0 ≤ x ∧ x ≤ record.remainingSize) ∧
      ∀ r ∈ worklist, r.status = .opened
  | .writing record accountedFilled result worklist =>
    record.status = .opened ∧ (∃ remote nowUnixSec, (∀ x, remote = some x → 0 ≤ x ∧ x ≤ record.remainingSize) ∧
      HistoryDb.Reconciled record accountedFilled nowUnixSec remote result) ∧ ∀ r ∈ worklist, r.status = .opened

namespace History

structure Consistent (s : History) : Prop where
  db : s.db.Consistent
  runs : ∀ b ∈ s.runs, b.Sound

/-- A run writes back an order whose record and fills are still what it has read, no answer of the remote has
more left of an order than its record, and a live fill is of an open order that has it left. -/
def undisturbed (s : History) : Action → Bool
  | .lookup i (.found remainingSize) =>
    match s.runs[i]? with
    | some (.looking (record :: _)) => remainingSize ≤ record.remainingSize
    | _ => true
  | .write i =>
    match s.runs[i]? with
    | some (.writing record accountedFilled _ _) =>
      s.db.orders.lookup record.id = some record ∧ accountedFilled = s.db.filled record.id
    | _ => true
  | .applyFill fill => s.db.fits fill
  | _ => true

def Undisturbed (s : History) (a : Action) : Prop := s.undisturbed a = true

instance decidableUndisturbed (s : History) (a : Action) : Decidable (s.Undisturbed a) :=
  inferInstanceAs (Decidable (s.undisturbed a = true))

variable {s t : History} {a : Action}

/-- What a step does to the tables. -/
inductive Effect (s : History) : HistoryDb → Prop
  | routine : Effect s s.db
  | reconcile (r : OrderRecord) (remote : Option Decimal) (nowUnixSec : Decimal) (result : ReconcileResult)
      (stored : s.db.orders.lookup r.id = some r) (opened : r.status = .opened)
      (bound : ∀ x, remote = some x → 0 ≤ x ∧ x ≤ r.remainingSize)
      (reconciled : HistoryDb.Reconciled r (s.db.filled r.id) nowUnixSec remote result) :
      Effect s (s.db.applyReconciliation result)
  | applyFill (fill : FillRecord) (name : String) (live : fill.fillId = .live name) (fits : s.db.fits fill = true) :
      Effect s (s.db.applyFill fill)
  | markOrderCancelled (orderId : String) : Effect s (s.db.markOrderCancelled orderId)

theorem sound_set {i : Nat} {b : Backfill} (hs : s.Consistent) (hb : b.Sound) : ∀ b' ∈ s.runs.set i b, b'.Sound := by
  intro b' hb'
  rcases List.mem_or_eq_of_mem_set hb' with hold | rfl
  · exact hs.runs b' hold
  · exact hb

theorem listNonTerminalOrders_opened (db : HistoryDb) (trader : String) :
    ∀ r ∈ db.listNonTerminalOrders trader, r.status = .opened := by
  intro r hr
  simp only [HistoryDb.listNonTerminalOrders, List.mem_filter, decide_eq_true_eq] at hr
  exact hr.2.2

/-- One step that meets the condition, from consistent tables and sound runs. -/
theorem step_effect (hs : s.Consistent) (hc : s.Undisturbed a) (h : s.step a = some t) :
    Effect s t.db ∧ ∀ b ∈ t.runs, b.Sound := by
  cases a with
  | backfillTrader trader =>
    cases Option.some.inj h
    refine ⟨.routine, ?_⟩
    intro b hb
    rcases List.mem_append.mp hb with hold | hnew
    · exact hs.runs b hold
    · rw [List.mem_singleton.mp hnew]
      trivial
  | list i =>
    simp only [step] at h
    split at h
    next trader hi =>
      cases Option.some.inj h
      exact ⟨.routine, sound_set hs (listNonTerminalOrders_opened s.db trader)⟩
    next => simp at h
  | lookup i answer =>
    simp only [step] at h
    split at h
    next record worklist hi =>
      have hsound : ∀ r ∈ record :: worklist, r.status = .opened := hs.runs _ (List.mem_of_getElem? hi)
      have hrest : ∀ r ∈ worklist, r.status = .opened := fun r hr => hsound r (List.mem_cons_of_mem record hr)
      have hrecord := hsound record List.mem_cons_self
      split at h
      next =>
        cases Option.some.inj h
        exact ⟨.routine, sound_set hs hrest⟩
      next =>
        cases Option.some.inj h
        exact ⟨.routine, sound_set hs ⟨hrecord, fun x hx => (by cases hx), hrest⟩⟩
      next remainingSize =>
        split at h
        next hbounds =>
          cases Option.some.inj h
          refine ⟨.routine, sound_set hs ⟨hrecord, ?_, hrest⟩⟩
          intro x hx
          cases Option.some.inj hx
          have hle : remainingSize ≤ record.remainingSize := by
            simpa only [Undisturbed, undisturbed, hi, decide_eq_true_eq] using hc
          exact ⟨hbounds.1, hle⟩
        next => simp at h
    next => simp at h
  | readFills i nowUnixSec =>
    simp only [step] at h
    split at h
    next record remote worklist hi =>
      cases Option.some.inj h
      obtain ⟨hrecord, hbound, hrest⟩ := hs.runs _ (List.mem_of_getElem? hi)
      exact ⟨.routine, sound_set hs ⟨hrecord, ⟨remote, nowUnixSec, hbound,
        HistoryDb.reconcileOrder_reconciled hrecord _ _⟩, hrest⟩⟩
    next => simp at h
  | write i =>
    simp only [step] at h
    split at h
    next record accountedFilled result worklist hi =>
      cases Option.some.inj h
      obtain ⟨hrecord, ⟨remote, nowUnixSec, hbound, hres⟩, hrest⟩ := hs.runs _ (List.mem_of_getElem? hi)
      obtain ⟨hstored, rfl⟩ : s.db.orders.lookup record.id = some record ∧ accountedFilled = s.db.filled record.id := by
        simpa only [Undisturbed, undisturbed, hi, decide_eq_true_eq] using hc
      exact ⟨.reconcile record remote nowUnixSec result hstored hrecord hbound hres, sound_set hs hrest⟩
    next => simp at h
  | applyFill fill =>
    simp only [step] at h
    split at h
    next name hname =>
      cases Option.some.inj h
      exact ⟨.applyFill fill name hname hc, hs.runs⟩
    next => simp at h
  | markOrderCancelled orderId =>
    cases Option.some.inj h
    exact ⟨.markOrderCancelled orderId, hs.runs⟩

theorem step_consistent (hs : s.Consistent) (hc : s.Undisturbed a) (h : s.step a = some t) : t.Consistent := by
  obtain ⟨heffect, hruns⟩ := step_effect hs hc h
  refine ⟨?_, hruns⟩
  revert heffect
  generalize t.db = db
  intro heffect
  cases heffect with
  | routine => exact hs.db
  | reconcile r remote nowUnixSec result stored opened bound reconciled =>
    exact hs.db.applyReconciliation stored opened bound reconciled
  | applyFill fill name live fits => exact hs.db.applyFill live fits
  | markOrderCancelled orderId => exact hs.db.markOrderCancelled orderId

/-- A step leaves a terminal record as it is. -/
theorem step_terminal (hs : s.Consistent) (hc : s.Undisturbed a) (h : s.step a = some t) {id : String}
    {r : OrderRecord} (hr : s.db.orders.lookup id = some r) (hterminal : r.status ≠ .opened) :
    t.db.orders.lookup id = some r := by
  obtain ⟨heffect, -⟩ := step_effect hs hc h
  revert heffect
  generalize t.db = db
  intro heffect
  cases heffect with
  | routine => exact hr
  | reconcile r' remote nowUnixSec result stored opened bound reconciled =>
    obtain ⟨hid, -⟩ := reconciled.record_id
    have hne : id ≠ result.record.id := by
      rintro rfl
      rw [hid, stored] at hr
      exact hterminal (Option.some.inj hr ▸ opened)
    rw [HistoryDb.applyReconciliation, Table.lookup_insert_eq, if_neg hne]
    exact hr
  | applyFill fill name live fits =>
    unfold HistoryDb.applyFill
    split
    next => exact hr
    next =>
      split
      next => exact hr
      next order horder =>
        split
        next => exact hr
        next hopen =>
          have hne : id ≠ fill.orderId := by
            rintro rfl
            rw [horder] at hr
            cases Option.some.inj hr
            exact hopen (by simp [isTerminal, hterminal])
          dsimp only
          rw [Table.lookup_insert_eq, if_neg hne]
          exact hr
  | markOrderCancelled orderId =>
    unfold HistoryDb.markOrderCancelled
    split
    next => exact hr
    next order horder =>
      split
      next => exact hr
      next hopen =>
        have hne : id ≠ orderId := by
          rintro rfl
          rw [horder] at hr
          cases Option.some.inj hr
          exact hopen (by simp [isTerminal, hterminal])
        dsimp only
        rw [Table.lookup_insert_eq, if_neg hne]
        exact hr

end History

end DarkPool
