import DarkPool.Projection

namespace DarkPool

/-- Every order of the sub-book has the property. -/
def PerPairBook.All (Q : Order → Prop) (book : PerPairBook) : Prop := ∀ side, ∀ o ∈ (book.side side).values, Q o

/-- Every resting order has the property. -/
def AllOrders (Q : Order → Prop) (books : Table String PerPairBook) : Prop := ∀ book ∈ books.values, book.All Q

variable {Q : Order → Prop}

namespace PerPairBook

theorem all_empty : PerPairBook.empty.All Q := by
  intro side o ho
  cases side <;> simp [empty, side, Table.values] at ho

theorem All.setSide {book : PerPairBook} (h : book.All Q) {side : Side} {orders : Table Uuid Order}
    (horders : ∀ o ∈ orders.values, Q o) : (book.setSide side orders).All Q := by
  intro side' o ho
  rw [side_setSide] at ho
  split at ho
  next => exact horders o ho
  next => exact h side' o ho

end PerPairBook

namespace AllOrders

variable {books : Table String PerPairBook}

theorem empty : AllOrders Q (∅ : Table String PerPairBook) := by
  intro book hbook
  simp [Table.values] at hbook

theorem insert (h : AllOrders Q books) {book : PerPairBook} (hbook : book.All Q) (pair : String) :
    AllOrders Q (books.insert pair book) := by
  intro b hb
  rcases Table.mem_values_insert hb with rfl | hb
  · exact hbook
  · exact h b hb

theorem erase (h : AllOrders Q books) (pair : String) : AllOrders Q (books.erase pair) :=
  fun b hb => h b (Table.mem_values_erase hb)

theorem lookup (h : AllOrders Q books) {pair : String} {book : PerPairBook} (hb : books.lookup pair = some book) :
    book.All Q := h book (Table.mem_values.mpr ⟨pair, hb⟩)

end AllOrders

theorem allOrders_iff (inner : OrderBook) : AllOrders Q inner.books ↔ ∀ o ∈ inner.iterAll, Q o := by
  unfold AllOrders PerPairBook.All OrderBook.iterAll
  simp only [List.mem_flatMap, List.mem_append]
  constructor
  · rintro h o ⟨book, hbook, ho | ho⟩
    · exact h book hbook .buy o ho
    · exact h book hbook .sell o ho
  · intro h book hbook side o ho
    cases side
    · exact h o ⟨book, hbook, Or.inl ho⟩
    · exact h o ⟨book, hbook, Or.inr ho⟩

namespace OrderBook

variable {inner : OrderBook}

theorem all_insertOrder (h : AllOrders Q inner.books) {o : Order} (ho : Q o) : AllOrders Q (inner.insertOrder o).books := by
  have hbook : ((inner.books.lookup o.pair).getD PerPairBook.empty).All Q := by
    cases hb : inner.books.lookup o.pair with
    | none => exact PerPairBook.all_empty
    | some book => exact h.lookup hb
  refine h.insert (hbook.setSide ?_) o.pair
  intro o' ho'
  rcases Table.mem_values_insert ho' with rfl | ho'
  · exact ho
  · exact hbook o.side o' ho'

/-- The order a scan finds, and its sub-book. -/
theorem all_locate (h : AllOrders Q inner.books) {id : Uuid} {r : Resting} (hr : inner.locate id = some r) :
    r.book.All Q ∧ Q r.order := by
  obtain ⟨hbook, hlookup⟩ := locate_eq_some hr
  have hall := h.lookup hbook
  exact ⟨hall, hall r.side r.order (Table.mem_values.mpr ⟨id, hlookup⟩)⟩

theorem all_dropResting (h : AllOrders Q inner.books) {r : Resting} (hr : r.book.All Q) (id : Uuid) :
    AllOrders Q (inner.dropResting r id).books := by
  unfold dropResting
  simp only
  split
  next => exact h.erase r.pair
  next => exact h.insert (hr.setSide (fun o ho => hr r.side o (Table.mem_values_erase ho))) r.pair

theorem all_removeOrder (h : AllOrders Q inner.books) (id : Uuid) : AllOrders Q (inner.removeOrder id).books := by
  unfold removeOrder
  split
  next r hr => exact all_dropResting h (all_locate h hr).1 id
  next => exact h

/-- A fill that leaves something keeps the property if a smaller remainder does. -/
theorem all_applyFill (h : AllOrders Q inner.books) {fill : Fill}
    (hfill : ∀ o, Q o → 0 < o.remainingSize - fill.size → Q (o.withRemaining (o.remainingSize - fill.size))) :
    AllOrders Q (inner.applyFill fill).books := by
  unfold applyFill
  split
  next => exact h
  next r hr =>
    obtain ⟨hbook, horder⟩ := all_locate h hr
    split
    next => exact h
    next =>
      simp only
      split
      next => exact all_dropResting h hbook fill.orderId
      next hleft =>
        refine h.insert (hbook.setSide ?_) r.pair
        intro o ho
        rcases Table.mem_values_insert ho with rfl | ho
        · exact hfill r.order horder (not_le.mp hleft)
        · exact hbook r.side o ho

end OrderBook

/-- The fills of a match event. -/
def EventData.fills : EventData → List Fill
  | .orderMatched _ bid ask _ _ => [bid, ask]
  | _ => []

theorem allOrders_applyBooks {books : Table String PerPairBook} (h : AllOrders Q books) {data : EventData}
    (hfill : ∀ fill ∈ data.fills, ∀ o, Q o → 0 < o.remainingSize - fill.size →
      Q (o.withRemaining (o.remainingSize - fill.size))) : AllOrders Q (applyBooks books data) := by
  unfold applyBooks
  have h0 : AllOrders Q (OrderBook.mk books 0).books := h
  cases data with
  | orderCancelled orderId reason => exact OrderBook.all_removeOrder h0 orderId
  | orderExpired orderId => exact OrderBook.all_removeOrder h0 orderId
  | orderMatched auctionId bid ask price size =>
    exact OrderBook.all_applyFill (OrderBook.all_applyFill h0 (hfill bid List.mem_cons_self))
      (hfill ask (List.mem_cons_of_mem _ List.mem_cons_self))
  | _ => exact h

variable {env : Env}

/-- What the events after a state keep of its resting orders, and what the placed ones bring. -/
theorem allOrders_apply {p : Projection} (h : AllOrders Q p.books) {ev : Event}
    (hfill : ∀ fill ∈ ev.data.fills, ∀ o, Q o → 0 < o.remainingSize - fill.size →
      Q (o.withRemaining (o.remainingSize - fill.size)))
    (hplaced : ∀ id c proof ct, ev.data = .orderPlaced id c proof ct →
      ∀ o, replayOrder env ev id c ct = .ok o → Q o.order) : AllOrders Q (p.apply env ev).books := by
  unfold Projection.apply
  cases hdata : ev.data with
  | orderPlaced id c proof ct =>
    dsimp only
    cases hread : replayOrder env ev id c ct with
    | error e => exact h
    | ok o => exact @OrderBook.all_insertOrder Q ⟨p.books, 0⟩ h o.order (hplaced id c proof ct hdata o hread)
  | orderCancelled orderId reason => exact allOrders_applyBooks h (by rw [hdata] at hfill; exact hfill)
  | orderExpired orderId => exact allOrders_applyBooks h (by rw [hdata] at hfill; exact hfill)
  | orderMatched auctionId bid ask price size => exact allOrders_applyBooks h (by rw [hdata] at hfill; exact hfill)
  | _ => exact h

theorem allOrders_applyAll {p : Projection} (h : AllOrders Q p.books) {es : List Event}
    (hfill : ∀ ev ∈ es, ∀ fill ∈ ev.data.fills, ∀ o, Q o → 0 < o.remainingSize - fill.size →
      Q (o.withRemaining (o.remainingSize - fill.size)))
    (hplaced : ∀ ev ∈ es, ∀ id c proof ct, ev.data = .orderPlaced id c proof ct →
      ∀ o, replayOrder env ev id c ct = .ok o → Q o.order) : AllOrders Q (p.applyAll env es).books := by
  induction es generalizing p with
  | nil => exact h
  | cons ev es ih =>
    exact ih (allOrders_apply h (hfill ev List.mem_cons_self) (hplaced ev List.mem_cons_self))
      (fun e he => hfill e (List.mem_cons_of_mem ev he)) (fun e he => hplaced e (List.mem_cons_of_mem ev he))

end DarkPool
