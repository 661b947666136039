import DarkPool.AuctionPriority
import DarkPool.BookUpdate

namespace DarkPool

/-- The legs of the matches in the order the book applies them. -/
def fillsOf (ms : List Match) : List Fill := ms.flatMap (fun m => [m.bid, m.ask])

def sizesFor (fills : List Fill) (id : Uuid) : List Decimal :=
  (fills.filter (fun f => f.orderId = id)).map Fill.size

/-- What the matches take from the order `id`, on either side. -/
def filled (ms : List Match) (id : Uuid) : Decimal := (sizesFor (fillsOf ms) id).sum

def matchedData (auctionId : Uuid) (m : Match) : EventData :=
  .orderMatched auctionId m.bid m.ask m.price m.size

theorem filled_eq (ms : List Match) (id : Uuid) : filled ms id = bidFilled ms id + askFilled ms id := by
  induction ms with
  | nil => simp [filled, sizesFor, fillsOf, bidFilled, askFilled]
  | cons m ms ih =>
    have hsplit : filled (m :: ms) id =
        (if m.bid.orderId = id then m.bid.size else 0) + (if m.ask.orderId = id then m.ask.size else 0) +
          filled ms id := by
      simp only [filled, sizesFor, fillsOf, List.flatMap_cons, List.filter_append, List.map_append,
        List.sum_append, List.filter_cons, List.filter_nil, decide_eq_true_eq]
      split <;> split <;> simp
    have hbid : bidFilled (m :: ms) id = (if m.bid.orderId = id then m.bid.size else 0) + bidFilled ms id := by
      simp only [bidFilled, List.filter_cons, decide_eq_true_eq]
      split <;> simp
    have hask : askFilled (m :: ms) id = (if m.ask.orderId = id then m.ask.size else 0) + askFilled ms id := by
      simp only [askFilled, List.filter_cons, decide_eq_true_eq]
      split <;> simp
    rw [hsplit, hbid, hask, ih]
    ring

namespace OrderBook

def applyFills (inner : OrderBook) (fills : List Fill) : OrderBook := fills.foldl applyFill inner

/-- The fills of one order, one after the other. -/
def fillOrders (sizes : List Decimal) (o : Option Order) : Option Order :=
  sizes.foldl (fun acc size => acc.bind (fillOrder size)) o

theorem fillOrders_none (sizes : List Decimal) : fillOrders sizes none = none := by
  induction sizes with
  | nil => rfl
  | cons size sizes ih => exact ih

theorem fillOrders_eq {sizes : List Decimal} {o : Order} (hpos : ∀ s ∈ sizes, 0 < s)
    (hrem : 0 < o.remainingSize) (hle : sizes.sum ≤ o.remainingSize) :
    fillOrders sizes (some o) =
      if sizes.sum = o.remainingSize then none else some (o.withRemaining (o.remainingSize - sizes.sum)) := by
  induction sizes generalizing o with
  | nil => simp [fillOrders, hrem.ne]
  | cons size sizes ih =>
    obtain ⟨hsize, hrest⟩ := List.forall_mem_cons.mp hpos
    have hsum : 0 ≤ sizes.sum := List.sum_nonneg (fun s hs => (hrest s hs).le)
    rw [List.sum_cons] at hle ⊢
    have hstep : fillOrders (size :: sizes) (some o) = fillOrders sizes (fillOrder size o) := rfl
    rw [hstep]
    unfold fillOrder
    rw [if_neg (by linarith)]
    split
    next hzero =>
      rw [fillOrders_none, if_pos (by linarith)]
    next hleft =>
      rw [ih hrest (by simpa using hleft) (by simp only [Order.withRemaining_remainingSize]; linarith)]
      simp only [Order.withRemaining_remainingSize, Order.withRemaining_withRemaining]
      congr 1
      · exact propext ⟨fun h => by linarith, fun h => by linarith⟩
      · congr 2
        ring

theorem wf_applyFills {inner : OrderBook} (hwf : inner.WF) (fills : List Fill) : (inner.applyFills fills).WF := by
  induction fills generalizing inner with
  | nil => exact hwf
  | cons f fills ih => exact ih (wf_applyFill hwf f)

/-- Fills of other orders leave an order alone. -/
theorem findOrder_applyFills {inner : OrderBook} (hwf : inner.WF) (fills : List Fill) (id : Uuid) :
    (inner.applyFills fills).findOrder id = fillOrders (sizesFor fills id) (inner.findOrder id) := by
  induction fills generalizing inner with
  | nil => rfl
  | cons f fills ih =>
    have hstep := findOrder_applyFill hwf f id
    have hrest := ih (wf_applyFill hwf f)
    by_cases hid : f.orderId = id
    · rw [if_pos hid.symm] at hstep
      rw [hstep] at hrest
      simpa [applyFills, sizesFor, fillOrders, hid] using hrest
    · rw [if_neg (Ne.symm hid)] at hstep
      rw [hstep] at hrest
      simpa [applyFills, sizesFor, fillOrders, hid] using hrest

theorem overfills_eq_findOrder (inner : OrderBook) (fill : Fill) :
    inner.overfills fill = true ↔
      ∃ o, inner.findOrder fill.orderId = some o ∧ o.remainingSize < fill.size := by
  unfold overfills findOrder
  cases inner.locate fill.orderId with
  | none => simp
  | some r => simp

/-- Fills that together fit an order never overfill it on the way. -/
theorem applyFills_not_overfills {inner : OrderBook} (hwf : inner.WF) {before : List Fill} {fill : Fill}
    (hpos : ∀ f ∈ before, 0 < f.size) (hfill : 0 < fill.size)
    (hfits : ∀ o, inner.findOrder fill.orderId = some o →
      (sizesFor before fill.orderId).sum + fill.size ≤ o.remainingSize) :
    (inner.applyFills before).overfills fill = false := by
  rw [← Bool.not_eq_true, overfills_eq_findOrder]
  rintro ⟨o', ho', hlt⟩
  rw [findOrder_applyFills hwf] at ho'
  cases ho : inner.findOrder fill.orderId with
  | none =>
    rw [ho, fillOrders_none] at ho'
    simp at ho'
  | some o =>
    have hle := hfits o ho
    have hsizes : ∀ s ∈ sizesFor before fill.orderId, 0 < s := by
      intro s hs
      obtain ⟨f, hf, rfl⟩ := List.mem_map.mp hs
      exact hpos f (List.mem_filter.mp hf).1
    have hsum : 0 ≤ (sizesFor before fill.orderId).sum := List.sum_nonneg (fun s hs => (hsizes s hs).le)
    rw [ho, fillOrders_eq hsizes (by linarith) (by linarith), if_neg (by linarith)] at ho'
    cases Option.some.inj ho'
    simp only [Order.withRemaining_remainingSize] at hlt
    linarith

/-- Whether applying the event runs into a fill the book refuses. -/
def overfillsAt (inner : OrderBook) : EventData → Bool
  | .orderMatched _ bid ask _ _ => inner.overfills bid || (inner.applyFill bid).overfills ask
  | _ => false

theorem applyFill_withSeq (inner : OrderBook) (n : Nat) (fill : Fill) :
    (inner.withSeq n).applyFill fill = (inner.applyFill fill).withSeq n := by
  have hlocate : (inner.withSeq n).locate fill.orderId = inner.locate fill.orderId := rfl
  have hover : (inner.withSeq n).overfills fill = inner.overfills fill := rfl
  unfold applyFill
  rw [hlocate, hover]
  cases inner.locate fill.orderId with
  | none => rfl
  | some r =>
    simp only
    split
    next => rfl
    next =>
      split
      next => rfl
      next => rfl

theorem applyFills_withSeq (inner : OrderBook) (n : Nat) (fills : List Fill) :
    (inner.withSeq n).applyFills fills = (inner.applyFills fills).withSeq n := by
  induction fills generalizing inner with
  | nil => rfl
  | cons f fills ih =>
    have hstep := ih (inner.applyFill f)
    rw [← applyFill_withSeq] at hstep
    exact hstep

theorem applyFills_append (inner : OrderBook) (xs ys : List Fill) :
    inner.applyFills (xs ++ ys) = (inner.applyFills xs).applyFills ys :=
  List.foldl_append

/-- Freshly sequenced match events act on the book as their fills do. -/
theorem applyAll_matched {inner : OrderBook} {auctionId : Uuid} {ms : List Match} {events : List Event}
    (hdata : events.map Event.data = ms.map (matchedData auctionId))
    (hseq : (inner.seq :: events.map Event.seq).Pairwise (· < ·)) :
    ∃ n, inner.applyAll events = (inner.applyFills (fillsOf ms)).withSeq n := by
  induction events generalizing inner ms with
  | nil =>
    obtain rfl : ms = [] := by simpa using hdata.symm
    exact ⟨inner.seq, rfl⟩
  | cons e events ih =>
    cases ms with
    | nil => simp at hdata
    | cons m ms =>
      obtain ⟨hhead, hrest⟩ := List.cons.inj hdata
      obtain ⟨hlt, htail⟩ := List.pairwise_cons.mp hseq
      obtain ⟨hnext, _⟩ := List.pairwise_cons.mp htail
      have he : inner.seq < e.seq := hlt e.seq (by simp)
      have hstep : inner.apply e = ((inner.applyFill m.bid).applyFill m.ask).withSeq e.seq := by
        unfold apply
        rw [if_neg (by omega), hhead, matchedData, applyData, applyFill_withSeq, applyFill_withSeq,
          max_eq_right he.le]
      have hfresh : ((inner.apply e).seq :: events.map Event.seq).Pairwise (· < ·) := by
        rw [hstep]
        exact htail
      obtain ⟨n, hn⟩ := ih hrest hfresh
      refine ⟨n, ?_⟩
      have happ : inner.applyAll (e :: events) = (inner.apply e).applyAll events := rfl
      rw [happ, hn, hstep, applyFills_withSeq]
      rfl

end OrderBook

end DarkPool
