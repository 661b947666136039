import DarkPool.Expiry

namespace DarkPool

/-- What the log fills of an order. -/
def loggedFills (log : List Event) (id : Uuid) : Decimal :=
  (sizesFor (log.flatMap (fun ev => ev.data.fills)) id).sum

section Fills

variable {es : List Event} {id : Uuid}

theorem loggedFills_append (log es : List Event) (id : Uuid) :
    loggedFills (log ++ es) id = loggedFills log id + loggedFills es id := by
  simp only [loggedFills, sizesFor, List.flatMap_append, List.filter_append, List.map_append, List.sum_append]

theorem loggedFills_eq_zero (h : ∀ ev ∈ es, ev.data.fills = []) (id : Uuid) : loggedFills es id = 0 := by
  have hnil : es.flatMap (fun ev => ev.data.fills) = [] := List.flatMap_eq_nil_iff.mpr h
  rw [loggedFills, hnil]
  rfl

theorem fills_of_placed {env : Env} {ev : Event} {o : ReplayedOrder} (h : ev.placed env = some o) : ev.data.fills = [] := by
  obtain ⟨id, c, proof, ct, hdata, -⟩ := placed_eq_some h
  rw [hdata]
  rfl

theorem loggedFills_round {now : DateTime} {result : AuctionResult}
    (h : es.map Event.data = (auctionEvents now result).map Event.data) (id : Uuid) :
    loggedFills es id = filled result.matchList id := by
  have hdata : es.flatMap (fun ev => ev.data.fills) = (es.map Event.data).flatMap EventData.fills :=
    (List.flatMap_map ..).symm
  rw [loggedFills, hdata, h, auctionEvents, List.map_cons, List.map_map, List.flatMap_cons, List.flatMap_map]
  rfl

/-- Match events act on the books as their fills do. -/
theorem books_applyAll_matched (env : Env) {auctionId : Uuid} {ms : List Match}
    (hdata : es.map Event.data = ms.map (matchedData auctionId)) (p : Projection) :
    (p.applyAll env es).books = (OrderBook.applyFills ⟨p.books, 0⟩ (fillsOf ms)).books := by
  induction es generalizing p ms with
  | nil =>
    obtain rfl : ms = [] := by simpa using hdata.symm
    rfl
  | cons ev es ih =>
    cases ms with
    | nil => simp at hdata
    | cons m ms =>
      obtain ⟨hhead, hrest⟩ := List.cons.inj hdata
      have hstep : OrderBook.mk (p.apply env ev).books 0 =
          ((OrderBook.mk p.books 0).applyFill m.bid).applyFill m.ask := by
        have hbooks : (p.apply env ev).books = (((OrderBook.mk p.books 0).applyFill m.bid).applyFill m.ask).books := by
          rw [Projection.apply, hhead]
          rfl
        have hseq : (((OrderBook.mk p.books 0).applyFill m.bid).applyFill m.ask).seq = 0 := by
          rw [OrderBook.seq_applyFill, OrderBook.seq_applyFill]
        rw [hbooks]
        exact congrArg (OrderBook.mk _) hseq.symm
      rw [Projection.applyAll, List.foldl_cons, ← Projection.applyAll, ih hrest, hstep]
      rfl

theorem books_applyAll_round (env : Env) {now : DateTime} {result : AuctionResult}
    (h : es.map Event.data = (auctionEvents now result).map Event.data) (p : Projection) :
    (p.applyAll env es).books = (OrderBook.applyFills ⟨p.books, 0⟩ (fillsOf result.matchList)).books := by
  cases es with
  | nil => simp [auctionEvents] at h
  | cons ev es =>
    obtain ⟨hhead, hrest⟩ := List.cons.inj h
    have hsame : (p.apply env ev).books = p.books := by
      rw [Projection.apply, hhead]
      rfl
    rw [List.map_map] at hrest
    rw [Projection.applyAll, List.foldl_cons, ← Projection.applyAll, books_applyAll_matched env hrest, hsame]

end Fills

/-- An order that rests after an auction of its book rested before it, and has lost what was filled of it. -/
theorem findOrder_after_auction {book : OrderBook} {pair : String} {auctionId : Uuid} {r : AuctionResult} (hwf : book.WF)
    (hpos : ∀ o ∈ book.iterAll, 0 < o.remainingSize)
    (h : runAuction auctionId pair (book.bids pair) (book.asks pair) = some r) {o : Order}
    (ho : (book.applyFills (fillsOf r.matchList)).findOrder o.id = some o) :
    ∃ o', book.findOrder o.id = some o' ∧ o = o'.withRemaining (o'.remainingSize - filled r.matchList o.id) ∧
      0 < o.remainingSize := by
  have hrest : ∀ o ∈ book.bids pair ++ book.asks pair, book.findOrder o.id = some o := OrderBook.findOrder_of_mem hwf
  have hpos' : ∀ o ∈ book.bids pair ++ book.asks pair, 0 < o.remainingSize :=
    fun o ho => hpos o (OrderBook.mem_iterAll_of_findOrder (hrest o ho))
  have hids := OrderBook.bids_asks_ids_nodup hwf pair
  by_cases hmem : ∃ o' ∈ book.bids pair ++ book.asks pair, o'.id = o.id
  · obtain ⟨o', ho', hid⟩ := hmem
    rw [← hid, runAuction_findOrder hwf hids hpos' hrest h ho'] at ho
    split at ho
    next => simp at ho
    next hne =>
      have hle := sub_nonneg.mpr (runAuction_filled_le hids hpos' h o' ho')
      have heq := (Option.some.inj ho).symm
      refine ⟨o', hid ▸ hrest o' ho', hid ▸ heq, ?_⟩
      rw [heq]
      exact lt_of_le_of_ne hle (Ne.symm hne)
  · push Not at hmem
    have hnil : filled r.matchList o.id = 0 := by rw [filled, runAuction_sizesFor_other h hmem, List.sum_nil]
    rw [runAuction_findOrder_other hwf h hmem] at ho
    refine ⟨o, ho, ?_, hpos o (OrderBook.mem_iterAll_of_findOrder ho)⟩
    rw [hnil, sub_zero]
    rfl

/-- Every resting order has left what its size exceeds the logged fills by, and only placed orders are filled. -/
structure Ledger (env : Env) (log : List Event) : Prop extends Filed env log where
  remains : AllOrders (fun o => 0 < o.remainingSize ∧ o.remainingSize = o.size - loggedFills log o.id)
    (projectLog env log).books
  unfilled : ∀ id, (directory env log).lookup id = none → loggedFills log id = 0
  nonneg : ∀ id, 0 ≤ loggedFills log id

section Log

variable {env : Env} {log es : List Event} {ev : Event}

theorem ledger_nil (env : Env) : Ledger env [] where
  toFiled := filed_nil env
  remains := AllOrders.empty
  unfilled := fun _ _ => rfl
  nonneg := fun _ => le_rfl

/-- Events that neither place nor fill keep what rests as it is. -/
theorem Ledger.idle (h : Ledger env log) (hplaced : ∀ ev ∈ es, ev.placed env = none)
    (hfills : ∀ ev ∈ es, ev.data.fills = []) : Ledger env (log ++ es) := by
  have hsame : ∀ id, loggedFills (log ++ es) id = loggedFills log id := by
    intro id
    rw [loggedFills_append, loggedFills_eq_zero hfills, add_zero]
  refine ⟨h.toFiled.unplaced hplaced, ?_, ?_, fun id => hsame id ▸ h.nonneg id⟩
  · simp only [hsame]
    rw [projectLog_append]
    refine allOrders_applyAll h.remains ?_ ?_
    · intro ev hev fill hfill
      rw [hfills ev hev] at hfill
      simp at hfill
    · intro ev hev id c proof ct hdata o hread
      exact absurd ((placed_of_data hdata hread).symm.trans (hplaced ev hev)) (by simp)
  · intro id hid
    rw [directory_unplaced hplaced] at hid
    rw [hsame, h.unfilled id hid]

theorem Ledger.placed (h : Ledger env log) {o : ReplayedOrder} (ho : ev.placed env = some o)
    (hnew : (directory env log).lookup o.order.id = none)
    (hsized : 0 < o.order.size ∧ o.order.remainingSize = o.order.size) : Ledger env (log ++ [ev]) := by
  have hsame : ∀ id, loggedFills (log ++ [ev]) id = loggedFills log id := by
    intro id
    have hnone : ∀ e ∈ [ev], e.data.fills = [] := by simpa using fills_of_placed ho
    rw [loggedFills_append, loggedFills_eq_zero hnone, add_zero]
  refine ⟨h.toFiled.placed ho hnew, ?_, ?_, fun id => hsame id ▸ h.nonneg id⟩
  · simp only [hsame]
    rw [projectLog_append, Projection.applyAll, List.foldl_cons, List.foldl_nil, books_apply_placed ho]
    refine OrderBook.all_insertOrder h.remains ⟨hsized.2 ▸ hsized.1, ?_⟩
    rw [h.unfilled _ hnew, sub_zero, hsized.2]
  · intro id hid
    rw [directory_placed ho, Table.lookup_insert_eq] at hid
    split at hid
    next => simp at hid
    next => rw [hsame, h.unfilled id hid]

theorem Ledger.round (h : Ledger env log) {book : OrderBook} (hbook : book.books = (projectLog env log).books)
    {pair : String} {auctionId : Uuid} {result : AuctionResult} {now : DateTime}
    (hrun : runAuction auctionId pair (book.bids pair) (book.asks pair) = some result)
    (hes : es.map Event.data = (auctionEvents now result).map Event.data) (hplaced : ∀ ev ∈ es, ev.placed env = none) :
    Ledger env (log ++ es) := by
  have hwf : book.WF := h.toFiled.book_wf hbook
  have hremains := (allOrders_iff book).mp (hbook ▸ h.remains)
  have hmore : ∀ id, loggedFills (log ++ es) id = loggedFills log id + filled result.matchList id := by
    intro id
    rw [loggedFills_append, loggedFills_round hes]
  have hfiled := h.toFiled.unplaced hplaced
  have hbooks : (projectLog env (log ++ es)).books = (book.applyFills (fillsOf result.matchList)).books := by
    have hfills := congrArg OrderBook.books (OrderBook.applyFills_withSeq book 0 (fillsOf result.matchList))
    rw [projectLog_append, books_applyAll_round env hes, ← hbook]
    exact hfills
  refine ⟨hfiled, ?_, ?_, ?_⟩
  · rw [hbooks]
    refine OrderBook.allOrders_of_findOrder (OrderBook.wf_applyFills hwf _) (fun o ho => ?_)
    obtain ⟨o', ho', heq, hpos⟩ := findOrder_after_auction hwf (fun o ho => (hremains o ho).1) hrun ho
    obtain ⟨-, hleft⟩ := hremains o' (OrderBook.mem_iterAll_of_findOrder ho')
    refine ⟨hpos, ?_⟩
    have hid : o'.id = o.id := OrderBook.findOrder_id hwf ho'
    rw [hmore, ← sub_sub, ← hid, heq]
    simp only [Order.withRemaining_remainingSize, hleft, hid]
    rfl
  · intro id hid
    rw [directory_unplaced hplaced] at hid
    rw [hmore, h.unfilled id hid, zero_add, filled, runAuction_sizesFor_other hrun, List.sum_nil]
    rintro o ho rfl
    have hfind := OrderBook.findOrder_of_mem hwf o ho
    obtain ⟨placed, hlookup, -⟩ := (allOrders_iff book).mp (hbook ▸ h.listed) o (OrderBook.mem_iterAll_of_findOrder hfind)
    rw [hid] at hlookup
    simp at hlookup
  · intro id
    rw [hmore]
    refine add_nonneg (h.nonneg id) (List.sum_nonneg (fun s hs => ?_))
    obtain ⟨f, hf, rfl⟩ := List.mem_map.mp hs
    exact (runAuction_fill_pos hrun f (List.mem_filter.mp hf).1).le

end Log

end DarkPool
