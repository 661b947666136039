import DarkPool.OrderHistory
import Mathlib.Tactic.Linarith

namespace DarkPool

namespace HistoryDb

/-- The sizes of the fills that are stored for an order. -/
def filled (db : HistoryDb) (orderId : String) : Decimal := accountedFilledSize (db.fillsForOrder orderId)

/-- Records stand under their id, and a synthesized fill under its order and a size that it was added to. -/
structure Keyed (db : HistoryDb) : Prop where
  ids : ∀ {id r}, db.orders.lookup id = some r → r.id = id
  synthetic : ∀ {id acc f}, db.fills.lookup (.backfill id acc) = some f → f.orderId = id ∧ acc < db.filled id

/-- No order has more filled than its size, and an open one has the rest left at most. -/
structure Consistent (db : HistoryDb) : Prop extends Keyed db where
  nonneg : ∀ {id r}, db.orders.lookup id = some r → 0 ≤ r.remainingSize
  covered : ∀ {id r}, db.orders.lookup id = some r → db.filled id ≤ r.size
  left : ∀ {id r}, db.orders.lookup id = some r → r.status = .opened → db.filled id + r.remainingSize ≤ r.size

/-- A backfill stores the fill it synthesized, if any. -/
def putFill (db : HistoryDb) (fill : Option FillRecord) : HistoryDb :=
  { db with fills := match fill with
    | some f => db.fills.insert f.fillId f
    | none => db.fills }

variable {db : HistoryDb} {r : OrderRecord} {remote : Option Decimal} {total nowUnixSec : Decimal}

theorem filled_congr {db' : HistoryDb} (h : db'.fills = db.fills) (id : String) : db'.filled id = db.filled id := by
  rw [filled, filled, fillsForOrder, fillsForOrder, h]

theorem filled_insert {f : FillRecord} (h : db.fills.lookup f.fillId = none) (orders : Table String OrderRecord)
    (id : String) :
    filled ⟨orders, db.fills.insert f.fillId f⟩ id = (if f.orderId = id then f.size else 0) + db.filled id := by
  rw [filled, filled, fillsForOrder, fillsForOrder, Table.values_insert_of_none f h]
  by_cases hid : f.orderId = id
  · simp [hid, accountedFilledSize]
  · simp [hid, accountedFilledSize]

theorem synthesizeFill_eq_some {acc : Decimal} {f : FillRecord} (h : synthesizeFill r total acc nowUnixSec = some f) :
    0 < total - acc ∧ f.fillId = .backfill r.id acc ∧ f.orderId = r.id ∧ f.size = total - acc := by
  unfold synthesizeFill at h
  split at h
  next hpos =>
    cases Option.some.inj h
    exact ⟨hpos, rfl, rfl, rfl⟩
  next => simp at h

theorem synthesizeFill_eq_none {acc : Decimal} : synthesizeFill r total acc nowUnixSec = none ↔ total ≤ acc := by
  unfold synthesizeFill
  split
  next hpos =>
    simp only [reduceCtorEq, false_iff, not_le]
    linarith
  next hnot =>
    simp only [true_iff]
    linarith

/-- The key of a synthesized fill is fresh: one with that key would be accounted for. -/
theorem Keyed.fresh (h : db.Keyed) (id : String) : db.fills.lookup (.backfill id (db.filled id)) = none := by
  cases hlookup : db.fills.lookup (.backfill id (db.filled id)) with
  | none => rfl
  | some f => exact absurd (h.synthetic hlookup).2 (lt_irrefl _)

/-- What is stored for the order is brought up to the total. -/
theorem Keyed.filled_putFill (h : db.Keyed) (id : String) :
    (db.putFill (synthesizeFill r total (db.filled r.id) nowUnixSec)).filled id =
      if id = r.id then max (db.filled id) total else db.filled id := by
  cases hf : synthesizeFill r total (db.filled r.id) nowUnixSec with
  | none =>
    have hle := synthesizeFill_eq_none.mp hf
    split
    next hid => rw [hid, max_eq_left hle]; rfl
    next => rfl
  | some f =>
    obtain ⟨hpos, hkey, horder, hsize⟩ := synthesizeFill_eq_some hf
    have hstored := filled_insert (f := f) (by rw [hkey]; exact h.fresh r.id) db.orders id
    have hput : (db.putFill (some f)).filled id = filled ⟨db.orders, db.fills.insert f.fillId f⟩ id := rfl
    rw [hput, hstored, horder, hsize]
    by_cases hid : id = r.id
    · rw [if_pos hid.symm, if_pos hid, hid, max_eq_right (by linarith)]
      ring
    · rw [if_neg (Ne.symm hid), if_neg hid, zero_add]

theorem Keyed.putFill (h : db.Keyed) : (db.putFill (synthesizeFill r total (db.filled r.id) nowUnixSec)).Keyed where
  ids := h.ids
  synthetic := by
    intro id acc f hlookup
    have hmono : db.filled id ≤ (db.putFill (synthesizeFill r total (db.filled r.id) nowUnixSec)).filled id := by
      rw [h.filled_putFill]
      split
      next => exact le_max_left _ _
      next => exact le_rfl
    cases hf : synthesizeFill r total (db.filled r.id) nowUnixSec with
    | none =>
      rw [hf] at hlookup hmono
      exact ⟨(h.synthetic hlookup).1, (h.synthetic hlookup).2.trans_le hmono⟩
    | some g =>
      obtain ⟨hpos, hkey, horder, hsize⟩ := synthesizeFill_eq_some hf
      have hfilled : (db.putFill (synthesizeFill r total (db.filled r.id) nowUnixSec)).filled id =
        if id = r.id then max (db.filled id) total else db.filled id := h.filled_putFill id
      rw [hf] at hlookup hmono hfilled
      rcases Table.lookup_insert_cases hlookup with ⟨hid, rfl⟩ | ⟨-, hold⟩
      · rw [hkey] at hid
        obtain ⟨rfl, rfl⟩ := FillId.backfill.inj hid
        refine ⟨horder, ?_⟩
        rw [hfilled, if_pos rfl, lt_max_iff]
        right
        linarith
      · exact ⟨(h.synthetic hold).1, (h.synthetic hold).2.trans_le hmono⟩

/-- What a reconciliation of an open record comes to. -/
inductive Reconciled (r : OrderRecord) (accountedFilled nowUnixSec : Decimal) : Option Decimal → ReconcileResult → Prop
  | found (x : Decimal) : Reconciled r accountedFilled nowUnixSec (some x)
      ⟨{ r with remainingSize := x }, synthesizeFill r (r.size - x) accountedFilled nowUnixSec⟩
  | expired : Reconciled r accountedFilled nowUnixSec none ⟨{ r with status := .expired }, none⟩
  | consumed : Reconciled r accountedFilled nowUnixSec none
      ⟨{ r with status := .filled, remainingSize := 0 }, synthesizeFill r r.size accountedFilled nowUnixSec⟩

theorem reconcileOrder_reconciled (hopen : r.status = .opened) (accountedFilled nowUnixSec : Decimal) :
    Reconciled r accountedFilled nowUnixSec remote (reconcileOrder r remote accountedFilled nowUnixSec) := by
  have hterminal : ¬ isTerminal r.status = true := by simp [isTerminal, hopen]
  unfold reconcileOrder
  rw [if_neg hterminal]
  split
  next x => exact .found x
  next =>
    split
    next => exact .expired
    next => exact .consumed

section Reconciliation

variable {result : ReconcileResult}

/-- A reconciliation puts one record under the id it has read, and stores what it synthesized. -/
theorem Reconciled.record_id {acc : Decimal} (hres : Reconciled r acc nowUnixSec remote result) :
    result.record.id = r.id ∧ result.record.size = r.size := by
  cases hres with
  | found x => exact ⟨rfl, rfl⟩
  | expired => exact ⟨rfl, rfl⟩
  | consumed => exact ⟨rfl, rfl⟩

/-- The total that the stored fills are brought up to. -/
theorem Reconciled.putFill_eq {acc : Decimal} (hres : Reconciled r acc nowUnixSec remote result) :
    result.fill = none ∨ ∃ total, result.fill = synthesizeFill r total acc nowUnixSec := by
  cases hres with
  | found x => exact .inr ⟨_, rfl⟩
  | expired => exact .inl rfl
  | consumed => exact .inr ⟨_, rfl⟩

theorem Keyed.applyReconciliation (h : db.Keyed) (hres : Reconciled r (db.filled r.id) nowUnixSec remote result) :
    (db.applyReconciliation result).Keyed := by
  have hfill : (db.putFill result.fill).Keyed := by
    rcases hres.putFill_eq with hnone | ⟨total, htotal⟩
    · rw [hnone]
      exact h
    · rw [htotal]
      exact h.putFill
  refine ⟨?_, hfill.synthetic⟩
  intro id r' hlookup
  rcases Table.lookup_insert_cases hlookup with ⟨rfl, rfl⟩ | ⟨-, hold⟩
  · rfl
  · exact h.ids hold

theorem Keyed.filled_of_ne (h : db.Keyed) (hres : Reconciled r (db.filled r.id) nowUnixSec remote result) {id : String}
    (hid : id ≠ r.id) : (db.applyReconciliation result).filled id = db.filled id := by
  have hfill : (db.putFill result.fill).filled id = db.filled id := by
    rcases hres.putFill_eq with hnone | ⟨total, htotal⟩
    · rw [hnone]
      rfl
    · rw [htotal, h.filled_putFill, if_neg hid]
  exact hfill

/-- Of the order itself as much is stored as before, or what the remote has filled. -/
theorem Keyed.filled_self (h : db.Keyed) (hres : Reconciled r (db.filled r.id) nowUnixSec remote result) :
    (∃ x, remote = some x ∧ result.record = { r with remainingSize := x } ∧
      (db.applyReconciliation result).filled r.id = max (db.filled r.id) (r.size - x)) ∨
    (result.record.status = .expired ∧ result.record.remainingSize = r.remainingSize ∧
      (db.applyReconciliation result).filled r.id = db.filled r.id) ∨
    (result.record.status = .filled ∧ result.record.remainingSize = 0 ∧
      (db.applyReconciliation result).filled r.id = max (db.filled r.id) r.size) := by
  have hput : ∀ total, (db.putFill (synthesizeFill r total (db.filled r.id) nowUnixSec)).filled r.id =
      max (db.filled r.id) total := by
    intro total
    rw [h.filled_putFill, if_pos rfl]
  cases hres with
  | found x => exact .inl ⟨x, rfl, rfl, hput _⟩
  | expired => exact .inr (.inl ⟨rfl, rfl, rfl⟩)
  | consumed => exact .inr (.inr ⟨rfl, rfl, hput _⟩)

/-- A reconciliation of what is stored, with an answer that is not behind it, keeps the tables consistent. -/
theorem Consistent.applyReconciliation (h : db.Consistent) (hstored : db.orders.lookup r.id = some r)
    (hopen : r.status = .opened) (hremote : ∀ x, remote = some x → 0 ≤ x ∧ x ≤ r.remainingSize)
    (hres : Reconciled r (db.filled r.id) nowUnixSec remote result) : (db.applyReconciliation result).Consistent := by
  obtain ⟨hid, hsize⟩ := hres.record_id
  have hcovered := h.covered hstored
  have hleft := h.left hstored hopen
  have hnonneg := h.nonneg hstored
  -- the record that was put, against what is now stored for it
  have hself : 0 ≤ result.record.remainingSize ∧ (db.applyReconciliation result).filled r.id ≤ r.size ∧
      (result.record.status = .opened →
        (db.applyReconciliation result).filled r.id + result.record.remainingSize ≤ r.size) := by
    rcases h.toKeyed.filled_self hres with ⟨x, hx, hrecord, hfilled⟩ | ⟨hstatus, hrest, hfilled⟩ | ⟨hstatus, hrest, hfilled⟩
    · obtain ⟨hx0, hxr⟩ := hremote x hx
      rw [hfilled, hrecord]
      refine ⟨hx0, max_le hcovered (by linarith), fun _ => ?_⟩
      rcases max_cases (db.filled r.id) (r.size - x) with ⟨hmax, -⟩ | ⟨hmax, -⟩
      · rw [hmax]
        linarith
      · rw [hmax]
        linarith
    · rw [hfilled, hrest]
      exact ⟨hnonneg, hcovered, fun hopened => absurd (hstatus.symm.trans hopened) (by decide)⟩
    · rw [hfilled, hrest]
      exact ⟨le_rfl, max_le hcovered le_rfl, fun hopened => absurd (hstatus.symm.trans hopened) (by decide)⟩
  have hcases : ∀ {id r'}, (db.applyReconciliation result).orders.lookup id = some r' →
      (id = r.id ∧ r' = result.record) ∨ (id ≠ r.id ∧ db.orders.lookup id = some r') := by
    intro id r' hlookup
    rcases Table.lookup_insert_cases hlookup with ⟨hkey, hrecord⟩ | ⟨hkey, hold⟩
    · exact .inl ⟨hkey.trans hid, hrecord⟩
    · exact .inr ⟨fun heq => hkey (heq.trans hid.symm), hold⟩
  refine ⟨h.toKeyed.applyReconciliation hres, ?_, ?_, ?_⟩
  · intro id r' hlookup
    rcases hcases hlookup with ⟨rfl, rfl⟩ | ⟨-, hold⟩
    · exact hself.1
    · exact h.nonneg hold
  · intro id r' hlookup
    rcases hcases hlookup with ⟨rfl, rfl⟩ | ⟨hne, hold⟩
    · rw [hsize]
      exact hself.2.1
    · rw [h.toKeyed.filled_of_ne hres hne]
      exact h.covered hold
  · intro id r' hlookup hstatus
    rcases hcases hlookup with ⟨rfl, rfl⟩ | ⟨hne, hold⟩
    · rw [hsize]
      exact hself.2.2 hstatus
    · rw [h.toKeyed.filled_of_ne hres hne]
      exact h.left hold hstatus

end Reconciliation

/-- A cancelled record keeps its sizes. -/
theorem Consistent.markOrderCancelled (h : db.Consistent) (orderId : String) :
    (db.markOrderCancelled orderId).Consistent := by
  unfold HistoryDb.markOrderCancelled
  split
  next => exact h
  next record hrecord =>
    split
    next => exact h
    next =>
      have hcases : ∀ {id r'}, (db.orders.insert orderId { record with status := .cancelled }).lookup id = some r' →
          ∃ r, db.orders.lookup id = some r ∧ r'.id = r.id ∧ r'.remainingSize = r.remainingSize ∧ r'.size = r.size ∧
            (r'.status = .opened → r.status = .opened) := by
        intro id r' hlookup
        rcases Table.lookup_insert_cases hlookup with ⟨rfl, rfl⟩ | ⟨-, hold⟩
        · exact ⟨record, hrecord, rfl, rfl, rfl, fun hopened => by cases hopened⟩
        · exact ⟨r', hold, rfl, rfl, rfl, fun hopened => hopened⟩
      refine ⟨⟨?_, h.synthetic⟩, ?_, ?_, ?_⟩
      · intro id r' hlookup
        obtain ⟨r, hr, hid, -⟩ := hcases hlookup
        exact hid.trans (h.ids hr)
      · intro id r' hlookup
        obtain ⟨r, hr, -, hrest, -⟩ := hcases hlookup
        exact hrest ▸ h.nonneg hr
      · intro id r' hlookup
        obtain ⟨r, hr, -, -, hsize, -⟩ := hcases hlookup
        exact hsize ▸ h.covered hr
      · intro id r' hlookup hstatus
        obtain ⟨r, hr, -, hrest, hsize, hopen⟩ := hcases hlookup
        rw [hrest, hsize]
        exact h.left hr (hopen hstatus)

/-- A live fill that the record of its order has room for. -/
def fits (db : HistoryDb) (fill : FillRecord) : Bool :=
  (db.fills.lookup fill.fillId).isSome ||
    (db.orders.lookup fill.orderId).all (fun r => r.status = .opened && fill.size ≤ r.remainingSize)

theorem Keyed.insert_live {fill : FillRecord} {name : String} (h : db.Keyed) (hname : fill.fillId = .live name)
    (hfresh : db.fills.lookup fill.fillId = none) (orders : Table String OrderRecord) {id : String} {acc : Decimal}
    {f : FillRecord} (hlookup : (db.fills.insert fill.fillId fill).lookup (.backfill id acc) = some f) :
    f.orderId = id ∧ acc < filled ⟨orders, db.fills.insert fill.fillId fill⟩ id := by
  rcases Table.lookup_insert_cases hlookup with ⟨hkey, -⟩ | ⟨-, hold⟩
  · rw [hname] at hkey
    cases hkey
  · obtain ⟨horder, hacc⟩ := h.synthetic hold
    refine ⟨horder, ?_⟩
    rw [filled_insert hfresh]
    have hpos := fill.size_pos
    split
    next => linarith
    next => linarith

theorem Consistent.applyFill {fill : FillRecord} {name : String} (h : db.Consistent) (hname : fill.fillId = .live name)
    (hfits : db.fits fill = true) : (db.applyFill fill).Consistent := by
  unfold HistoryDb.applyFill
  split
  next => exact h
  next hseen =>
    have hfresh : db.fills.lookup fill.fillId = none := by simpa using hseen
    have hfilled := fun orders id => filled_insert hfresh orders id
    have hroom : (db.orders.lookup fill.orderId).all (fun r => r.status = .opened && fill.size ≤ r.remainingSize) :=
      (Bool.or_eq_true _ _ ▸ hfits).resolve_left hseen
    split
    next hnone =>
      -- no record has the order of the fill
      have hother : ∀ {id r}, db.orders.lookup id = some r → ¬ fill.orderId = id := by
        rintro id r hr rfl
        rw [hnone] at hr
        cases hr
      refine ⟨⟨h.ids, h.toKeyed.insert_live hname hfresh db.orders⟩, h.nonneg, ?_, ?_⟩
      · intro id r hr
        rw [hfilled, if_neg (hother hr), zero_add]
        exact h.covered hr
      · intro id r hr hstatus
        rw [hfilled, if_neg (hother hr), zero_add]
        exact h.left hr hstatus
    next order horder =>
      rw [horder] at hroom
      obtain ⟨hopen, hsize⟩ : order.status = .opened ∧ fill.size ≤ order.remainingSize := by simpa using hroom
      have hterminal : ¬ isTerminal order.status = true := by simp [isTerminal, hopen]
      have hrest : max 0 (order.remainingSize - fill.size) = order.remainingSize - fill.size :=
        max_eq_right (sub_nonneg.mpr hsize)
      have hleft := h.left horder hopen
      rw [if_neg hterminal]
      simp only [hrest]
      have hcases : ∀ {id r' status}, (db.orders.insert fill.orderId { order with
            remainingSize := order.remainingSize - fill.size, status := status }).lookup id = some r' →
          (id = fill.orderId ∧ r'.id = order.id ∧ r'.remainingSize = order.remainingSize - fill.size ∧
            r'.size = order.size) ∨ (¬ fill.orderId = id ∧ db.orders.lookup id = some r') := by
        intro id r' status hlookup
        rcases Table.lookup_insert_cases hlookup with ⟨rfl, rfl⟩ | ⟨hne, hold⟩
        · exact .inl ⟨rfl, rfl, rfl, rfl⟩
        · exact .inr ⟨Ne.symm hne, hold⟩
      have hpos := fill.size_pos
      refine ⟨⟨?_, h.toKeyed.insert_live hname hfresh _⟩, ?_, ?_, ?_⟩
      · intro id r' hlookup
        rcases hcases hlookup with ⟨rfl, hid, -⟩ | ⟨-, hold⟩
        · exact hid.trans (h.ids horder)
        · exact h.ids hold
      · intro id r' hlookup
        rcases hcases hlookup with ⟨-, -, hrest', -⟩ | ⟨-, hold⟩
        · rw [hrest']
          linarith
        · exact h.nonneg hold
      · intro id r' hlookup
        rw [hfilled]
        rcases hcases hlookup with ⟨rfl, -, -, hsize'⟩ | ⟨hne, hold⟩
        · rw [if_pos rfl, hsize']
          linarith
        · rw [if_neg hne, zero_add]
          exact h.covered hold
      · intro id r' hlookup hstatus
        rw [hfilled]
        rcases hcases hlookup with ⟨rfl, -, hrest', hsize'⟩ | ⟨hne, hold⟩
        · rw [if_pos rfl, hsize', hrest']
          linarith
        · rw [if_neg hne, zero_add]
          exact h.left hold hstatus

end HistoryDb

end DarkPool
