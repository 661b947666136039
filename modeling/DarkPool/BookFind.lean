import DarkPool.Book

namespace DarkPool

namespace PerPairBook

@[simp] theorem side_setSide (book : PerPairBook) (side side' : Side) (orders : Table Uuid Order) :
    (book.setSide side orders).side side' = if side' = side then orders else book.side side' := by
  cases side <;> cases side' <;> rfl

theorem isEmpty_iff {book : PerPairBook} :
    book.isEmpty = true ↔ ∀ side id, (book.side side).lookup id = none := by
  simp only [isEmpty, Bool.and_eq_true, Table.isEmpty_iff]
  constructor
  · rintro ⟨hb, ha⟩ side id
    cases side
    · exact hb id
    · exact ha id
  · intro h
    exact ⟨h .buy, h .sell⟩

end PerPairBook

namespace OrderBook

/-- The order filed under a pair, a side and an id. -/
def lookupAt (inner : OrderBook) (pair : String) (side : Side) (id : Uuid) : Option Order :=
  (inner.books.lookup pair).bind (fun book => (book.side side).lookup id)

/-- Every order is filed once, under its own pair, side and id, and no sub-book is empty. -/
structure WF (inner : OrderBook) : Prop where
  keyed : ∀ {pair side id o}, inner.lookupAt pair side id = some o →
    o.id = id ∧ o.pair = pair ∧ o.side = side
  unique : ∀ {pair side pair' side' id o o'}, inner.lookupAt pair side id = some o →
    inner.lookupAt pair' side' id = some o' → o = o'
  nonempty : ∀ {pair book}, inner.books.lookup pair = some book → book.isEmpty = false

theorem wf_empty : empty.WF where
  keyed h := by simp [lookupAt, empty] at h
  unique h := by simp [lookupAt, empty] at h
  nonempty h := by simp [empty] at h

theorem restingIn_eq_some {id : Uuid} {pair : String} {book : PerPairBook} {r : Resting}
    (h : restingIn id pair book = some r) :
    r.pair = pair ∧ r.book = book ∧ (book.side r.side).lookup id = some r.order := by
  unfold restingIn at h
  split at h
  next order ho =>
    cases Option.some.inj h
    exact ⟨rfl, rfl, ho⟩
  next =>
    obtain ⟨order, ho, rfl⟩ := Option.map_eq_some_iff.mp h
    exact ⟨rfl, rfl, ho⟩

theorem restingIn_eq_none {id : Uuid} {pair : String} {book : PerPairBook}
    (h : restingIn id pair book = none) (side : Side) : (book.side side).lookup id = none := by
  unfold restingIn at h
  split at h
  next => simp at h
  next hb =>
    cases side
    · exact hb
    · exact Option.map_eq_none_iff.mp h

theorem locate_eq_some {inner : OrderBook} {id : Uuid} {r : Resting} (h : inner.locate id = some r) :
    inner.books.lookup r.pair = some r.book ∧ (r.book.side r.side).lookup id = some r.order := by
  obtain ⟨⟨pair, book⟩, hm, hr⟩ := List.exists_of_findSome?_eq_some h
  obtain ⟨hp, hb, ho⟩ := restingIn_eq_some hr
  rw [hp, hb]
  exact ⟨Table.mem_entries.mp hm, ho⟩

theorem locate_lookupAt {inner : OrderBook} {id : Uuid} {r : Resting} (h : inner.locate id = some r) :
    inner.lookupAt r.pair r.side id = some r.order := by
  obtain ⟨hb, ho⟩ := locate_eq_some h
  simp [lookupAt, hb, ho]

theorem locate_eq_none {inner : OrderBook} {id : Uuid} (h : inner.locate id = none) (pair : String)
    (side : Side) : inner.lookupAt pair side id = none := by
  unfold lookupAt
  cases hb : inner.books.lookup pair with
  | none => rfl
  | some book =>
    exact restingIn_eq_none (List.findSome?_eq_none_iff.mp h _ (Table.mem_entries.mpr hb)) side

theorem lookupAt_of_book {inner : OrderBook} {pair : String} {book : PerPairBook} {side : Side} {id : Uuid}
    {o : Order} (hb : inner.books.lookup pair = some book) (h : (book.side side).lookup id = some o) :
    inner.lookupAt pair side id = some o := by
  simp [lookupAt, hb, h]

/-- One side of one pair, in no particular order. -/
def restingOrders (inner : OrderBook) (pair : String) (side : Side) : List Order :=
  match inner.books.lookup pair with
  | some book => (book.side side).values
  | none => []

theorem bids_eq_sorted (inner : OrderBook) (pair : String) :
    inner.bids pair = (inner.restingOrders pair .buy).insertionSort bidPriority := by
  unfold bids restingOrders
  cases inner.books.lookup pair <;> rfl

theorem asks_eq_sorted (inner : OrderBook) (pair : String) :
    inner.asks pair = (inner.restingOrders pair .sell).insertionSort askPriority := by
  unfold asks restingOrders
  cases inner.books.lookup pair <;> rfl

section WellFormed

variable {inner : OrderBook} {id : Uuid} {o : Order}

theorem findOrder_eq_some (hwf : inner.WF) :
    inner.findOrder id = some o ↔ ∃ pair side, inner.lookupAt pair side id = some o := by
  constructor
  · intro h
    obtain ⟨r, hr, rfl⟩ := Option.map_eq_some_iff.mp h
    exact ⟨r.pair, r.side, locate_lookupAt hr⟩
  · rintro ⟨pair, side, h⟩
    unfold findOrder
    cases hr : inner.locate id with
    | none =>
      rw [locate_eq_none hr] at h
      simp at h
    | some r => rw [Option.map_some, hwf.unique (locate_lookupAt hr) h]

theorem findOrder_id (hwf : inner.WF) (h : inner.findOrder id = some o) : o.id = id := by
  obtain ⟨pair, side, hl⟩ := (findOrder_eq_some hwf).mp h
  exact (hwf.keyed hl).1

theorem lookupAt_eq_some (hwf : inner.WF) {pair : String} {side : Side} :
    inner.lookupAt pair side id = some o ↔ inner.findOrder id = some o ∧ o.pair = pair ∧ o.side = side := by
  constructor
  · intro h
    exact ⟨(findOrder_eq_some hwf).mpr ⟨pair, side, h⟩, (hwf.keyed h).2⟩
  · rintro ⟨h, rfl, rfl⟩
    obtain ⟨pair, side, hl⟩ := (findOrder_eq_some hwf).mp h
    obtain ⟨-, rfl, rfl⟩ := hwf.keyed hl
    exact hl

theorem findOrder_eq_none (h : inner.findOrder id = none) (pair : String) (side : Side) :
    inner.lookupAt pair side id = none :=
  locate_eq_none (Option.map_eq_none_iff.mp h) pair side

theorem mem_restingOrders (hwf : inner.WF) {pair : String} {side : Side} :
    o ∈ inner.restingOrders pair side ↔ inner.findOrder o.id = some o ∧ o.pair = pair ∧ o.side = side := by
  rw [← lookupAt_eq_some hwf]
  unfold restingOrders
  cases hb : inner.books.lookup pair with
  | none => simp [lookupAt, hb]
  | some book =>
    simp only [Table.mem_values]
    constructor
    · rintro ⟨k, hk⟩
      have hat := lookupAt_of_book hb hk
      exact (hwf.keyed hat).1 ▸ hat
    · intro h
      exact ⟨o.id, by simpa [lookupAt, hb] using h⟩

theorem restingOrders_ids_nodup (hwf : inner.WF) (pair : String) (side : Side) :
    ((inner.restingOrders pair side).map Order.id).Nodup := by
  unfold restingOrders
  split
  next book hb => exact Table.values_map_nodup (fun hk => (hwf.keyed (lookupAt_of_book hb hk)).1)
  next => exact List.nodup_nil

theorem mem_bids (hwf : inner.WF) {pair : String} :
    o ∈ inner.bids pair ↔ inner.findOrder o.id = some o ∧ o.pair = pair ∧ o.side = .buy := by
  rw [bids_eq_sorted, List.mem_insertionSort, mem_restingOrders hwf]

theorem mem_asks (hwf : inner.WF) {pair : String} :
    o ∈ inner.asks pair ↔ inner.findOrder o.id = some o ∧ o.pair = pair ∧ o.side = .sell := by
  rw [asks_eq_sorted, List.mem_insertionSort, mem_restingOrders hwf]

theorem bids_ids_nodup (hwf : inner.WF) (pair : String) : ((inner.bids pair).map Order.id).Nodup := by
  rw [bids_eq_sorted]
  exact ((List.perm_insertionSort _ _).map Order.id).symm.nodup (restingOrders_ids_nodup hwf pair .buy)

theorem asks_ids_nodup (hwf : inner.WF) (pair : String) : ((inner.asks pair).map Order.id).Nodup := by
  rw [asks_eq_sorted]
  exact ((List.perm_insertionSort _ _).map Order.id).symm.nodup (restingOrders_ids_nodup hwf pair .sell)

end WellFormed

end OrderBook

end DarkPool
