import DarkPool.BookFill

namespace DarkPool

open OrderBook

theorem sum_sizesFor_split {before after : List Fill} {fill : Fill} (hpos : ∀ f ∈ after, 0 < f.size) :
    (sizesFor before fill.orderId).sum + fill.size ≤
      (sizesFor (before ++ fill :: after) fill.orderId).sum := by
  have hafter : 0 ≤ (sizesFor after fill.orderId).sum := by
    apply List.sum_nonneg
    intro s hs
    obtain ⟨f, hf, rfl⟩ := List.mem_map.mp hs
    exact (hpos f (List.mem_filter.mp hf).1).le
  have hsum : (sizesFor (before ++ fill :: after) fill.orderId).sum =
      (sizesFor before fill.orderId).sum + (fill.size + (sizesFor after fill.orderId).sum) := by
    simp [sizesFor]
  rw [hsum]
  linarith

theorem fillsOf_append (xs ys : List Match) : fillsOf (xs ++ ys) = fillsOf xs ++ fillsOf ys :=
  List.flatMap_append

theorem fillsOf_cons (m : Match) (ms : List Match) : fillsOf (m :: ms) = m.bid :: m.ask :: fillsOf ms := rfl

section Auction

variable {auctionId : Uuid} {pair : String} {bids asks : List Order} {r : AuctionResult}

theorem runAuction_fill_pos (h : runAuction auctionId pair bids asks = some r) :
    ∀ f ∈ fillsOf r.matchList, 0 < f.size := by
  intro f hf
  obtain ⟨m, hm, hfm⟩ := List.mem_flatMap.mp hf
  obtain ⟨b, _, a, _, _, _, _, _, _, hpos, he⟩ := runAuction_match h hm
  rw [he] at hfm
  rcases List.mem_cons.mp hfm with rfl | hfm
  · exact hpos
  · rw [List.mem_singleton.mp hfm]
    exact hpos

theorem runAuction_bidFilled_le (hids : (bids.map Order.id).Nodup)
    (h : runAuction auctionId pair bids asks = some r) {b : Order} (hb : b ∈ bids) (hpos : 0 < b.remainingSize) :
    bidFilled r.matchList b.id ≤ b.remainingSize := by
  by_cases hprice : r.clearingPrice ≤ b.price
  · rw [(runSorted_eq_some h).2.2.2.1]
    exact bidFilled_le (ids_nodup_sorted hids bidPriority)
      (mem_eligibleBids.mpr ⟨(List.mem_insertionSort _).mpr hb, hprice, hpos⟩)
  · rw [bidFilled_eq_zero]
    · exact hpos.le
    · intro m hm heq
      obtain ⟨b', hb', _, _, hp, _, _, _, _, _, he⟩ := runAuction_match h hm
      rw [he] at heq
      exact hprice (eq_of_id_eq hids hb' hb heq ▸ hp)

theorem runAuction_askFilled_le (hids : (asks.map Order.id).Nodup)
    (h : runAuction auctionId pair bids asks = some r) {a : Order} (ha : a ∈ asks) (hpos : 0 < a.remainingSize) :
    askFilled r.matchList a.id ≤ a.remainingSize := by
  by_cases hprice : a.price ≤ r.clearingPrice
  · rw [(runSorted_eq_some h).2.2.2.1]
    exact askFilled_le (ids_nodup_sorted hids askPriority)
      (mem_eligibleAsks.mpr ⟨(List.mem_insertionSort _).mpr ha, hprice, hpos⟩)
  · rw [askFilled_eq_zero]
    · exact hpos.le
    · intro m hm heq
      obtain ⟨_, _, a', ha', _, hp, _, _, _, _, he⟩ := runAuction_match h hm
      rw [he] at heq
      exact hprice (eq_of_id_eq hids ha' ha heq ▸ hp)

theorem askFilled_bid_eq_zero (hids : ((bids ++ asks).map Order.id).Nodup)
    (h : runAuction auctionId pair bids asks = some r) {b : Order} (hb : b ∈ bids) :
    askFilled r.matchList b.id = 0 := by
  apply askFilled_eq_zero
  intro m hm heq
  obtain ⟨_, _, a, ha, _, _, _, _, _, _, he⟩ := runAuction_match h hm
  rw [he] at heq
  rw [List.map_append] at hids
  exact (List.nodup_append.mp hids).2.2 _ (List.mem_map.mpr ⟨b, hb, rfl⟩) _
    (List.mem_map.mpr ⟨a, ha, rfl⟩) heq.symm

theorem bidFilled_ask_eq_zero (hids : ((bids ++ asks).map Order.id).Nodup)
    (h : runAuction auctionId pair bids asks = some r) {a : Order} (ha : a ∈ asks) :
    bidFilled r.matchList a.id = 0 := by
  apply bidFilled_eq_zero
  intro m hm heq
  obtain ⟨b, hb, _, _, _, _, _, _, _, _, he⟩ := runAuction_match h hm
  rw [he] at heq
  rw [List.map_append] at hids
  exact (List.nodup_append.mp hids).2.2 _ (List.mem_map.mpr ⟨b, hb, rfl⟩) _
    (List.mem_map.mpr ⟨a, ha, rfl⟩) heq

theorem runAuction_filled_le (hids : ((bids ++ asks).map Order.id).Nodup)
    (hpos : ∀ o ∈ bids ++ asks, 0 < o.remainingSize) (h : runAuction auctionId pair bids asks = some r) :
    ∀ o ∈ bids ++ asks, filled r.matchList o.id ≤ o.remainingSize := by
  intro o ho
  rw [filled_eq]
  have hnodup := hids
  rw [List.map_append] at hnodup
  rcases List.mem_append.mp ho with hb | ha
  · rw [askFilled_bid_eq_zero hids h hb, add_zero]
    exact runAuction_bidFilled_le hnodup.of_append_left h hb (hpos o ho)
  · rw [bidFilled_ask_eq_zero hids h ha, zero_add]
    exact runAuction_askFilled_le hnodup.of_append_right h ha (hpos o ho)

/-- A match names only orders of the auction. -/
theorem runAuction_fill_mem (h : runAuction auctionId pair bids asks = some r) :
    ∀ f ∈ fillsOf r.matchList, ∃ o ∈ bids ++ asks, f.orderId = o.id := by
  intro f hf
  obtain ⟨m, hm, hfm⟩ := List.mem_flatMap.mp hf
  obtain ⟨b, hb, a, ha, _, _, _, _, _, _, he⟩ := runAuction_match h hm
  rw [he] at hfm
  rcases List.mem_cons.mp hfm with rfl | hfm
  · exact ⟨b, List.mem_append_left _ hb, rfl⟩
  · rw [List.mem_singleton.mp hfm]
    exact ⟨a, List.mem_append_right _ ha, rfl⟩

theorem runAuction_sizesFor_other (h : runAuction auctionId pair bids asks = some r) {id : Uuid}
    (hid : ∀ o ∈ bids ++ asks, o.id ≠ id) : sizesFor (fillsOf r.matchList) id = [] := by
  unfold sizesFor
  rw [List.map_eq_nil_iff, List.filter_eq_nil_iff]
  intro f hf heq
  obtain ⟨o, ho, hfo⟩ := runAuction_fill_mem h f hf
  exact hid o ho (hfo.symm.trans (of_decide_eq_true heq))

section Book

variable {book : OrderBook}

/-- No fill of the auction is refused, whichever fills came before it. -/
theorem runAuction_fill_accepted (hwf : book.WF) (hids : ((bids ++ asks).map Order.id).Nodup)
    (hpos : ∀ o ∈ bids ++ asks, 0 < o.remainingSize)
    (hrest : ∀ o ∈ bids ++ asks, book.findOrder o.id = some o)
    (h : runAuction auctionId pair bids asks = some r) {before after : List Fill} {fill : Fill}
    (hsplit : fillsOf r.matchList = before ++ fill :: after) :
    (book.applyFills before).overfills fill = false := by
  have hall := runAuction_fill_pos h
  rw [hsplit] at hall
  apply applyFills_not_overfills hwf
  · exact fun f hf => hall f (List.mem_append_left _ hf)
  · exact hall fill (by simp)
  · intro o ho
    obtain ⟨o', ho', hid⟩ := runAuction_fill_mem h fill (by rw [hsplit]; simp)
    have hsame : o = o' := by
      rw [hid, hrest o' ho'] at ho
      exact (Option.some.inj ho).symm
    have hle := runAuction_filled_le hids hpos h o' ho'
    rw [filled, hsplit, ← hid] at hle
    rw [hsame]
    exact (sum_sizesFor_split (fun f hf => hall f (by simp [hf]))).trans hle

theorem runAuction_findOrder (hwf : book.WF) (hids : ((bids ++ asks).map Order.id).Nodup)
    (hpos : ∀ o ∈ bids ++ asks, 0 < o.remainingSize)
    (hrest : ∀ o ∈ bids ++ asks, book.findOrder o.id = some o)
    (h : runAuction auctionId pair bids asks = some r) {o : Order} (ho : o ∈ bids ++ asks) :
    (book.applyFills (fillsOf r.matchList)).findOrder o.id =
      if o.remainingSize - filled r.matchList o.id = 0 then none
      else some (o.withRemaining (o.remainingSize - filled r.matchList o.id)) := by
  rw [findOrder_applyFills hwf, hrest o ho, fillOrders_eq _ (hpos o ho) (runAuction_filled_le hids hpos h o ho)]
  · congr 1
    exact propext ⟨fun he => by rw [filled, he, sub_self], fun he => (sub_eq_zero.mp he).symm⟩
  · intro s hs
    obtain ⟨f, hf, rfl⟩ := List.mem_map.mp hs
    exact runAuction_fill_pos h f (List.mem_filter.mp hf).1

theorem runAuction_findOrder_other (hwf : book.WF) (h : runAuction auctionId pair bids asks = some r)
    {id : Uuid} (hid : ∀ o ∈ bids ++ asks, o.id ≠ id) :
    (book.applyFills (fillsOf r.matchList)).findOrder id = book.findOrder id := by
  rw [findOrder_applyFills hwf, runAuction_sizesFor_other h hid]
  rfl

end Book

end Auction

/-- Every match of an auction is a proper trade between two of its orders, no order is filled beyond
what it has left, and the book the orders rest in takes every fill of the match events and ends up
with exactly the remainders. -/
theorem runAuction_matches_apply (book : OrderBook) (hwf : book.WF) (auctionId : Uuid) (pair : String)
    (bids asks : List Order) (hids : ((bids ++ asks).map Order.id).Nodup)
    (hpos : ∀ o ∈ bids ++ asks, 0 < o.remainingSize) (r : AuctionResult)
    (h : runAuction auctionId pair bids asks = some r) :
    (∀ m ∈ r.matchList, 0 < m.size ∧ ∃ b ∈ bids, ∃ a ∈ asks, b.trader ≠ a.trader ∧
      a.price ≤ r.clearingPrice ∧ r.clearingPrice ≤ b.price ∧
      m = ⟨⟨b.id, m.size⟩, ⟨a.id, m.size⟩, r.clearingPrice, m.size⟩) ∧
    (∀ o ∈ bids ++ asks, filled r.matchList o.id ≤ o.remainingSize) ∧
    ((∀ o ∈ bids ++ asks, book.findOrder o.id = some o) →
      ∀ events : List Event, events.map Event.data = r.matchList.map (matchedData auctionId) →
        (book.seq :: events.map Event.seq).Pairwise (· < ·) →
        (∀ before e after, events = before ++ e :: after → (book.applyAll before).overfillsAt e.data = false) ∧
        (∀ o ∈ bids ++ asks, (book.applyAll events).findOrder o.id =
          if o.remainingSize - filled r.matchList o.id = 0 then none
          else some (o.withRemaining (o.remainingSize - filled r.matchList o.id))) ∧
        ∀ id, (∀ o ∈ bids ++ asks, o.id ≠ id) → (book.applyAll events).findOrder id = book.findOrder id) := by
  refine ⟨?_, runAuction_filled_le hids hpos h, fun hrest events hdata hseq => ⟨?_, ?_, ?_⟩⟩
  · intro m hm
    obtain ⟨b, hb, a, ha, hbp, hap, _, _, hne, hmpos, he⟩ := runAuction_match h hm
    exact ⟨hmpos, b, hb, a, ha, hne, hap, hbp, he⟩
  · intro before e after hsplit
    rw [hsplit, List.map_append, List.map_cons] at hdata
    obtain ⟨mbefore, mrest, hms, hbefore, hrest'⟩ := List.map_eq_append_iff.mp hdata.symm
    obtain ⟨m, mafter, hmrest, hm, hafter⟩ := List.map_eq_cons_iff.mp hrest'
    rw [hsplit, List.map_append] at hseq
    obtain ⟨n, hn⟩ := applyAll_matched hbefore.symm
      (hseq.sublist ((List.sublist_append_left _ _).cons_cons _))
    have hfills : fillsOf r.matchList = fillsOf mbefore ++ m.bid :: m.ask :: fillsOf mafter := by
      rw [hms, hmrest, fillsOf_append, fillsOf_cons]
    have hbid := runAuction_fill_accepted hwf hids hpos hrest h hfills
    have hfills' : fillsOf r.matchList = (fillsOf mbefore ++ [m.bid]) ++ m.ask :: fillsOf mafter := by
      rw [hfills]
      simp
    have hask := runAuction_fill_accepted hwf hids hpos hrest h hfills'
    rw [applyFills_append] at hask
    rw [hn, ← hm, matchedData, overfillsAt, applyFill_withSeq, Bool.or_eq_false_iff]
    exact ⟨hbid, hask⟩
  · obtain ⟨n, hn⟩ := applyAll_matched hdata hseq
    intro o ho
    rw [hn]
    exact runAuction_findOrder hwf hids hpos hrest h ho
  · obtain ⟨n, hn⟩ := applyAll_matched hdata hseq
    intro id hid
    rw [hn]
    exact runAuction_findOrder_other hwf h hid

/-- A bid whose trader also owns the ask is passed over; the other bid is used up, the ask is not. -/
theorem runAuction_matches_apply_selfTrade :
    let b₁ := makeOrder 1 1 .buy 3 5 1
    let b₂ := makeOrder 2 2 .buy 2 5 2
    let a := makeOrder 3 1 .sell 1 7 3
    let book := ((OrderBook.empty.insertOrder b₁).insertOrder b₂).insertOrder a
    let events : List Event := [⟨4, 1, .orderMatched 0 ⟨2, 5⟩ ⟨3, 5⟩ (3 / 2) 5⟩]
    (book.applyAll events).findOrder 1 = some b₁ ∧ (book.applyAll events).findOrder 2 = none ∧
      (book.applyAll events).findOrder 3 = some (a.withRemaining 2) := by
  intro b₁ b₂ a book events
  have hwf : book.WF := wf_insertOrder (wf_insertOrder (wf_insertOrder wf_empty (by decide))
    (by decide)) (by decide)
  obtain ⟨-, -, happly⟩ := runAuction_matches_apply book hwf 0 "BTC-USD" [b₁, b₂] [a] (by decide)
    (by decide) ⟨0, "BTC-USD", 3 / 2, 5, [⟨⟨2, 5⟩, ⟨3, 5⟩, 3 / 2, 5⟩]⟩ (by decide +kernel)
  obtain ⟨-, hleft, -⟩ := happly (by decide) events rfl (by decide)
  exact ⟨(hleft b₁ (by simp)).trans (by decide +kernel), (hleft b₂ (by simp)).trans (by decide +kernel),
    (hleft a (by simp)).trans (by decide +kernel)⟩

end DarkPool
