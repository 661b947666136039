import DarkPool.AuctionApply

namespace DarkPool

open OrderBook GreedyFill

theorem sum_filter_add_sum_filter_not (os : List Order) (p : Order → Bool) (f : Order → Decimal) :
    ((os.filter p).map f).sum + ((os.filter (fun o => !p o)).map f).sum = (os.map f).sum := by
  rw [← List.sum_append, ← List.map_append]
  exact ((List.filter_append_perm p os).map f).sum_eq

/-- When everything outside `p` is untouched and something inside is not used up, less than what is
inside was taken. -/
theorem sum_sub_left_lt {os : List Order} {left : Order → Decimal} {p : Order → Bool}
    (hout : ∀ o ∈ os, p o = false → left o = o.remainingSize) (hnonneg : ∀ o ∈ os, 0 ≤ left o)
    {o₀ : Order} (ho : o₀ ∈ os) (hp : p o₀ = true) (hleft : 0 < left o₀) :
    (os.map Order.remainingSize).sum - (os.map left).sum < ((os.filter p).map Order.remainingSize).sum := by
  have hout' : (os.filter (fun o => !p o)).map left = (os.filter (fun o => !p o)).map Order.remainingSize := by
    apply List.map_congr_left
    intro o hm
    obtain ⟨hmem, hno⟩ := List.mem_filter.mp hm
    exact hout o hmem (by simpa using hno)
  have hin : left o₀ ≤ ((os.filter p).map left).sum := by
    refine List.single_le_sum (fun x hx => ?_) _ (List.mem_map.mpr ⟨o₀, List.mem_filter.mpr ⟨ho, hp⟩, rfl⟩)
    obtain ⟨o, hm, rfl⟩ := List.mem_map.mp hx
    exact hnonneg o (List.mem_filter.mp hm).1
  have hsplit := sum_filter_add_sum_filter_not os p Order.remainingSize
  have hsplit' := sum_filter_add_sum_filter_not os p left
  rw [hout'] at hsplit'
  linarith

section Auction

variable {auctionId : Uuid} {pair : String} {bids asks : List Order} {r : AuctionResult}

/-- The matched volume counted from the asks: what the eligible ones had less what they keep. -/
theorem runAuction_volume_asks (hids : (asks.map Order.id).Nodup)
    (h : runAuction auctionId pair bids asks = some r) :
    r.matchedVolume =
      ((eligibleAsks (asks.insertionSort askPriority) r.clearingPrice).map Order.remainingSize).sum -
        ((eligibleAsks (asks.insertionSort askPriority) r.clearingPrice).map
          (fun a => a.remainingSize - askFilled r.matchList a.id)).sum := by
  obtain ⟨-, -, -, hlist, hvol⟩ := runSorted_eq_some h
  have htotal := fillAll_total_sellers (R := mayTrade)
    ((eligibleBids (bids.insertionSort bidPriority) r.clearingPrice).map weigh)
    ((eligibleAsks (asks.insertionSort askPriority) r.clearingPrice).map weigh)
  rw [← fillPlan, ← sum_size_matchOrders, fillPlan_sellers (ids_nodup_sorted hids askPriority),
    map_weigh_snd, List.map_map, ← hlist, ← hvol] at htotal
  exact htotal

theorem runAuction_volume_bids (hids : (bids.map Order.id).Nodup)
    (h : runAuction auctionId pair bids asks = some r) :
    r.matchedVolume =
      ((eligibleBids (bids.insertionSort bidPriority) r.clearingPrice).map Order.remainingSize).sum -
        ((eligibleBids (bids.insertionSort bidPriority) r.clearingPrice).map
          (fun b => b.remainingSize - bidFilled r.matchList b.id)).sum := by
  obtain ⟨-, -, -, hlist, hvol⟩ := runSorted_eq_some h
  have htotal := fillAll_total_buyers (R := mayTrade)
    ((eligibleBids (bids.insertionSort bidPriority) r.clearingPrice).map weigh)
    ((eligibleAsks (asks.insertionSort askPriority) r.clearingPrice).map weigh)
  rw [← fillPlan, ← sum_size_matchOrders, fillPlan_buyers (ids_nodup_sorted hids bidPriority),
    map_weigh_snd, List.map_map, ← hlist, ← hvol] at htotal
  exact htotal

section Leftovers

variable (hb : (bids.map Order.id).Nodup) (ha : (asks.map Order.id).Nodup)
variable (hbpos : ∀ o ∈ bids, 0 < o.remainingSize) (hapos : ∀ o ∈ asks, 0 < o.remainingSize)
variable (hself : ∀ b ∈ bids, ∀ a ∈ asks, b.trader ≠ a.trader)
variable (h : runAuction auctionId pair bids asks = some r)

include hb ha hself h

theorem askFilled_eq_zero_of_precedes {a₁ a₂ : Order} (h₁ : a₁ ∈ asks) (hp₁ : a₁.price ≤ r.clearingPrice)
    (hr₁ : 0 < a₁.remainingSize - askFilled r.matchList a₁.id) (h₂ : a₂ ∈ asks) (hprec : askPrecedes a₁ a₂) :
    askFilled r.matchList a₂.id = 0 := by
  apply askFilled_eq_zero
  intro m hm hma
  obtain ⟨b, hbm, _, _, _, _, _, _, _, _, he⟩ := runAuction_match h hm
  exact hself b hbm a₁ h₁ (runAuction_ask_priority hb ha h h₁ hp₁ hr₁ h₂ hprec hm hma hbm (by rw [he]))

theorem bidFilled_eq_zero_of_precedes {b₁ b₂ : Order} (h₁ : b₁ ∈ bids) (hp₁ : r.clearingPrice ≤ b₁.price)
    (hr₁ : 0 < b₁.remainingSize - bidFilled r.matchList b₁.id) (h₂ : b₂ ∈ bids) (hprec : bidPrecedes b₁ b₂) :
    bidFilled r.matchList b₂.id = 0 := by
  apply bidFilled_eq_zero
  intro m hm hmb
  obtain ⟨_, _, a, ham, _, _, _, _, _, _, he⟩ := runAuction_match h hm
  exact hself b₁ h₁ a ham (runAuction_bid_priority hb ha h h₁ hp₁ hr₁ h₂ hprec hm hmb ham (by rw [he])).symm

include hapos

/-- An eligible ask left over means the matched volume is below the supply at any price between
its own and the clearing price. -/
theorem runAuction_volume_lt_supply {a : Order} (ham : a ∈ asks)
    (har : 0 < a.remainingSize - askFilled r.matchList a.id) {p : Decimal} (hap : a.price ≤ p)
    (hp : p ≤ r.clearingPrice) : r.matchedVolume < cumulativeVolume asks (fun o => o.price ≤ p) := by
  have hfilter : ((eligibleAsks (asks.insertionSort askPriority) r.clearingPrice).filter
      (fun o => o.price ≤ p)).map Order.remainingSize =
      ((asks.insertionSort askPriority).filter (fun o => o.price ≤ p)).map Order.remainingSize := by
    rw [eligibleAsks, List.filter_filter]
    congr 1
    apply List.filter_congr
    intro o ho
    have hpos := hapos o ((List.mem_insertionSort _).mp ho)
    simp only [hpos, and_true, ← Bool.decide_and, decide_eq_decide]
    exact ⟨fun h => h.1, fun h => ⟨h, h.trans hp⟩⟩
  have hperm : cumulativeVolume asks (fun o => o.price ≤ p) =
      (((asks.insertionSort askPriority).filter (fun o => o.price ≤ p)).map Order.remainingSize).sum :=
    (((List.perm_insertionSort askPriority asks).filter _).map _).sum_eq.symm
  rw [runAuction_volume_asks ha h, hperm, ← hfilter]
  refine sum_sub_left_lt ?_ ?_ (mem_eligibleAsks_of_left h ham (hap.trans hp) har) (by simpa using hap) har
  · intro o ho hout
    have hlate : askPrecedes a o := Or.inl (hap.trans_lt (by simpa using hout))
    have hmem := (List.mem_insertionSort _).mp (mem_eligibleAsks.mp ho).1
    rw [askFilled_eq_zero_of_precedes hb ha hself h ham (hap.trans hp) har hmem hlate, sub_zero]
  · intro o ho
    have hmem := (List.mem_insertionSort _).mp (mem_eligibleAsks.mp ho).1
    exact sub_nonneg.mpr (runAuction_askFilled_le ha h hmem (hapos o hmem))

omit hapos
include hbpos

theorem runAuction_volume_lt_demand {b : Order} (hbm : b ∈ bids)
    (hbr : 0 < b.remainingSize - bidFilled r.matchList b.id) {p : Decimal} (hbp : p ≤ b.price)
    (hp : r.clearingPrice ≤ p) : r.matchedVolume < cumulativeVolume bids (fun o => p ≤ o.price) := by
  have hfilter : ((eligibleBids (bids.insertionSort bidPriority) r.clearingPrice).filter
      (fun o => p ≤ o.price)).map Order.remainingSize =
      ((bids.insertionSort bidPriority).filter (fun o => p ≤ o.price)).map Order.remainingSize := by
    rw [eligibleBids, List.filter_filter]
    congr 1
    apply List.filter_congr
    intro o ho
    have hpos := hbpos o ((List.mem_insertionSort _).mp ho)
    simp only [hpos, and_true, ← Bool.decide_and, decide_eq_decide]
    exact ⟨fun h => h.1, fun h => ⟨h, hp.trans h⟩⟩
  have hperm : cumulativeVolume bids (fun o => p ≤ o.price) =
      (((bids.insertionSort bidPriority).filter (fun o => p ≤ o.price)).map Order.remainingSize).sum :=
    (((List.perm_insertionSort bidPriority bids).filter _).map _).sum_eq.symm
  rw [runAuction_volume_bids hb h, hperm, ← hfilter]
  refine sum_sub_left_lt ?_ ?_ (mem_eligibleBids_of_left h hbm (hp.trans hbp) hbr) (by simpa using hbp) hbr
  · intro o ho hout
    have hlate : bidPrecedes b o := Or.inl (lt_of_lt_of_le (by simpa using hout) hbp)
    have hmem := (List.mem_insertionSort _).mp (mem_eligibleBids.mp ho).1
    rw [bidFilled_eq_zero_of_precedes hb ha hself h hbm (hp.trans hbp) hbr hmem hlate, sub_zero]
  · intro o ho
    have hmem := (List.mem_insertionSort _).mp (mem_eligibleBids.mp ho).1
    exact sub_nonneg.mpr (runAuction_bidFilled_le hb h hmem (hbpos o hmem))

end Leftovers

theorem cumulativeVolume_lt {os : List Order} {p q : Order → Bool} (hpos : ∀ o ∈ os, 0 < o.remainingSize)
    (himp : ∀ o ∈ os, p o = true → q o = true) {o₀ : Order} (ho : o₀ ∈ os) (hp : p o₀ = false)
    (hq : q o₀ = true) : cumulativeVolume os p < cumulativeVolume os q := by
  have hsub : (os.filter q).filter p = os.filter p := by
    rw [List.filter_filter]
    apply List.filter_congr
    intro o hm
    cases hpo : p o
    · simp
    · simp [himp o hm hpo]
  have hsplit := sum_filter_add_sum_filter_not (os.filter q) p Order.remainingSize
  rw [hsub] at hsplit
  have hrest : 0 < (((os.filter q).filter (fun o => !p o)).map Order.remainingSize).sum := by
    apply List.sum_pos
    · intro x hx
      obtain ⟨o, hm, rfl⟩ := List.mem_map.mp hx
      exact hpos o (List.mem_filter.mp (List.mem_filter.mp hm).1).1
    · have hm : o₀ ∈ (os.filter q).filter (fun o => !p o) := by simp [ho, hp, hq]
      simp only [ne_eq, List.map_eq_nil_iff]
      exact List.ne_nil_of_mem hm
  unfold cumulativeVolume
  linarith

/-- With prices on the grid and no trader on both sides, what the auction leaves does not cross. -/
theorem runAuction_leftovers_uncrossed (hb : (bids.map Order.id).Nodup) (ha : (asks.map Order.id).Nodup)
    (hbpos : ∀ o ∈ bids, 0 < o.remainingSize) (hapos : ∀ o ∈ asks, 0 < o.remainingSize)
    (hbgrid : ∀ o ∈ bids, OnGrid o.price) (hagrid : ∀ o ∈ asks, OnGrid o.price)
    (hself : ∀ b ∈ bids, ∀ a ∈ asks, b.trader ≠ a.trader)
    (h : runAuction auctionId pair bids asks = some r) {b a : Order} (hbm : b ∈ bids) (ham : a ∈ asks)
    (hbr : 0 < b.remainingSize - bidFilled r.matchList b.id)
    (har : 0 < a.remainingSize - askFilled r.matchList a.id) : b.price < a.price := by
  by_contra hcross
  have hcross := not_lt.mp hcross
  have hopt : ∀ p, matchedAt bids asks p ≤ matchedAt bids asks r.clearingPrice :=
    runAuction_optimal (fun o ho => (hbpos o ho).le) (fun o ho => (hapos o ho).le) hbgrid hagrid h
  have hvol := runAuction_matchedVolume (nodup_of_id_nodup ha) hbpos hapos hself h
  rcases lt_or_ge b.price r.clearingPrice with hlow | hbp
  · -- the bid's own price moves more: the ask is left over and the bid adds demand
    have hsupply := runAuction_volume_lt_supply hb ha hapos hself h ham har hcross hlow.le
    have hdemand : cumulativeVolume bids (fun o => r.clearingPrice ≤ o.price) <
        cumulativeVolume bids (fun o => b.price ≤ o.price) :=
      cumulativeVolume_lt hbpos (fun o _ ho => by simpa using hlow.le.trans (by simpa using ho)) hbm
        (by simpa using hlow) (by simp)
    have hmore : matchedAt bids asks r.clearingPrice < matchedAt bids asks b.price :=
      lt_min ((min_le_left _ _).trans_lt hdemand) (hvol ▸ hsupply)
    exact absurd (hopt b.price) (not_le.mpr hmore)
  · rcases lt_or_ge r.clearingPrice a.price with hhigh | hap
    · -- the ask's own price moves more: the bid is left over and the ask adds supply
      have hdemand := runAuction_volume_lt_demand hb ha hbpos hself h hbm hbr hcross hhigh.le
      have hsupply : cumulativeVolume asks (fun o => o.price ≤ r.clearingPrice) <
          cumulativeVolume asks (fun o => o.price ≤ a.price) :=
        cumulativeVolume_lt hapos (fun o _ ho => by
          simpa using (show o.price ≤ r.clearingPrice by simpa using ho).trans hhigh.le) ham
          (by simpa using hhigh) (by simp)
      have hmore : matchedAt bids asks r.clearingPrice < matchedAt bids asks a.price :=
        lt_min (hvol ▸ hdemand) ((min_le_right _ _).trans_lt hsupply)
      exact absurd (hopt a.price) (not_le.mpr hmore)
    · exact hself b hbm a ham (runAuction_exhausts hb ha h hbm hbp hbr ham hap har)

end Auction

theorem runAuction_eq_none_of_uncrossed (auctionId : Uuid) (pair : String) {bids asks : List Order}
    (h : ∀ b ∈ bids, ∀ a ∈ asks, b.price < a.price) : runAuction auctionId pair bids asks = none := by
  apply runSorted_eq_none_iff.mpr
  intro bid ask hbid hask hle
  have hb := (List.mem_insertionSort bidPriority).mp (List.mem_of_head? hbid)
  have ha := (List.mem_insertionSort askPriority).mp (List.mem_of_head? hask)
  exact absurd (h bid hb ask ha) (not_lt.mpr hle)

namespace OrderBook

variable {book : OrderBook} {pair : String}

theorem bids_asks_ids_nodup (hwf : book.WF) (pair : String) :
    ((book.bids pair ++ book.asks pair).map Order.id).Nodup := by
  rw [List.map_append]
  refine (bids_ids_nodup hwf pair).append (asks_ids_nodup hwf pair) ?_
  intro id hb ha
  obtain ⟨b, hbm, rfl⟩ := List.mem_map.mp hb
  obtain ⟨a, ham, he⟩ := List.mem_map.mp ha
  obtain ⟨hfb, -, hsb⟩ := (mem_bids hwf).mp hbm
  obtain ⟨hfa, -, hsa⟩ := (mem_asks hwf).mp ham
  rw [he, hfb] at hfa
  cases Option.some.inj hfa
  rw [hsb] at hsa
  exact Side.noConfusion hsa

theorem findOrder_of_mem (hwf : book.WF) : ∀ o ∈ book.bids pair ++ book.asks pair,
    book.findOrder o.id = some o := by
  intro o ho
  rcases List.mem_append.mp ho with hb | ha
  · exact ((mem_bids hwf).mp hb).1
  · exact ((mem_asks hwf).mp ha).1

theorem wf_applyAll (hwf : book.WF) (events : List Event) : (book.applyAll events).WF := by
  induction events generalizing book with
  | nil => exact hwf
  | cons e events ih => exact ih (wf_apply hwf e)

end OrderBook

section Book

variable {book : OrderBook} {pair : String} {auctionId : Uuid} {r : AuctionResult}

/-- An order of the pair that rests after the auction is one that rested before, less its fills. -/
theorem resting_after_auction (hwf : book.WF)
    (hpos : ∀ o ∈ book.bids pair ++ book.asks pair, 0 < o.remainingSize)
    (h : runAuction auctionId pair (book.bids pair) (book.asks pair) = some r) {o : Order}
    (ho : (book.applyFills (fillsOf r.matchList)).findOrder o.id = some o) (hpair : o.pair = pair) :
    ∃ o' ∈ book.bids pair ++ book.asks pair, 0 < o'.remainingSize - filled r.matchList o'.id ∧
      o = o'.withRemaining (o'.remainingSize - filled r.matchList o'.id) := by
  have hids := bids_asks_ids_nodup hwf pair
  by_cases hmem : ∃ o' ∈ book.bids pair ++ book.asks pair, o'.id = o.id
  · obtain ⟨o', ho', hid⟩ := hmem
    rw [← hid, runAuction_findOrder hwf hids hpos (findOrder_of_mem hwf) h ho'] at ho
    split at ho
    next => simp at ho
    next hne =>
      refine ⟨o', ho', lt_of_le_of_ne ?_ (Ne.symm hne), (Option.some.inj ho).symm⟩
      exact sub_nonneg.mpr (runAuction_filled_le hids hpos h o' ho')
  · push Not at hmem
    rw [runAuction_findOrder_other hwf h hmem] at ho
    have hin : o ∈ book.bids pair ++ book.asks pair := by
      cases hside : o.side with
      | buy => exact List.mem_append_left _ ((mem_bids hwf).mpr ⟨ho, hpair, hside⟩)
      | sell => exact List.mem_append_right _ ((mem_asks hwf).mpr ⟨ho, hpair, hside⟩)
    exact absurd rfl (hmem o hin)

end Book

/-- Once the match events of an auction over on-grid prices are applied, the pair no longer crosses,
so another auction finds nothing to match. -/
theorem runAuction_uncrosses_book (book : OrderBook) (hwf : book.WF) (pair : String) (auctionId : Uuid)
    (hpos : ∀ o ∈ book.bids pair ++ book.asks pair, 0 < o.remainingSize)
    (hgrid : ∀ o ∈ book.bids pair ++ book.asks pair, OnGrid o.price)
    (hself : ∀ b ∈ book.bids pair, ∀ a ∈ book.asks pair, b.trader ≠ a.trader) (r : AuctionResult)
    (h : runAuction auctionId pair (book.bids pair) (book.asks pair) = some r) (events : List Event)
    (hdata : events.map Event.data = r.matchList.map (matchedData auctionId))
    (hseq : (book.seq :: events.map Event.seq).Pairwise (· < ·)) :
    (∀ b ∈ (book.applyAll events).bids pair, ∀ a ∈ (book.applyAll events).asks pair, b.price < a.price) ∧
      ∀ auctionId', runAuction auctionId' pair ((book.applyAll events).bids pair)
        ((book.applyAll events).asks pair) = none := by
  have hwf' := wf_applyAll hwf events
  obtain ⟨n, hn⟩ := applyAll_matched hdata hseq
  have huncrossed : ∀ b ∈ (book.applyAll events).bids pair, ∀ a ∈ (book.applyAll events).asks pair,
      b.price < a.price := by
    intro b hb a ha
    obtain ⟨hfb, hpb, hsb⟩ := (mem_bids hwf').mp hb
    obtain ⟨hfa, hpa, hsa⟩ := (mem_asks hwf').mp ha
    rw [hn] at hfb hfa
    obtain ⟨b', hb', hbr, rfl⟩ := resting_after_auction hwf hpos h hfb hpb
    obtain ⟨a', ha', har, rfl⟩ := resting_after_auction hwf hpos h hfa hpa
    have hbm : b' ∈ book.bids pair := (mem_bids hwf).mpr ⟨findOrder_of_mem hwf b' hb', hpb, hsb⟩
    have ham : a' ∈ book.asks pair := (mem_asks hwf).mpr ⟨findOrder_of_mem hwf a' ha', hpa, hsa⟩
    have hids := bids_asks_ids_nodup hwf pair
    rw [filled_eq, askFilled_bid_eq_zero hids h hbm, add_zero] at hbr
    rw [filled_eq, bidFilled_ask_eq_zero hids h ham, zero_add] at har
    have hlt : b'.price < a'.price :=
      runAuction_leftovers_uncrossed (bids_ids_nodup hwf pair) (asks_ids_nodup hwf pair)
        (fun o ho => hpos o (List.mem_append_left _ ho)) (fun o ho => hpos o (List.mem_append_right _ ho))
        (fun o ho => hgrid o (List.mem_append_left _ ho)) (fun o ho => hgrid o (List.mem_append_right _ ho))
        hself h hbm ham hbr har
    exact hlt
  exact ⟨huncrossed, fun auctionId' => runAuction_eq_none_of_uncrossed auctionId' pair huncrossed⟩

/-- Two bids against one ask: the ask is used up and the cheaper bid stays alone. -/
theorem runAuction_uncrosses_book_partial :
    let b₁ := makeOrder 1 1 .buy 3 5 1
    let b₂ := makeOrder 2 2 .buy 2 5 2
    let a := makeOrder 3 3 .sell 1 7 3
    let book := ((OrderBook.empty.insertOrder b₁).insertOrder b₂).insertOrder a
    let events : List Event :=
      [⟨4, 1, .orderMatched 0 ⟨1, 5⟩ ⟨3, 5⟩ (3 / 2) 5⟩, ⟨5, 1, .orderMatched 0 ⟨2, 2⟩ ⟨3, 2⟩ (3 / 2) 2⟩]
    (book.applyAll events).bids "BTC-USD" = [b₂.withRemaining 3] ∧
      runAuction 1 "BTC-USD" ((book.applyAll events).bids "BTC-USD")
        ((book.applyAll events).asks "BTC-USD") = none := by
  intro b₁ b₂ a book events
  have hwf : book.WF := wf_insertOrder (wf_insertOrder (wf_insertOrder wf_empty (by decide))
    (by decide)) (by decide)
  have hside : book.bids "BTC-USD" = [b₁, b₂] ∧ book.asks "BTC-USD" = [a] := by decide
  have hgrid : ∀ n : ℤ, OnGrid n := fun n => ⟨n * 10 ^ 8, by norm_num [clearingPriceDp]⟩
  refine ⟨by decide +kernel, (runAuction_uncrosses_book book hwf "BTC-USD" 0 ?_ ?_ ?_
    ⟨0, "BTC-USD", 3 / 2, 7, [⟨⟨1, 5⟩, ⟨3, 5⟩, 3 / 2, 5⟩, ⟨⟨2, 2⟩, ⟨3, 2⟩, 3 / 2, 2⟩]⟩ (by decide +kernel)
    events rfl (by decide)).2 1⟩
  · rw [hside.1, hside.2]
    decide
  · rw [hside.1, hside.2]
    intro o ho
    have hcases : o.price = (3 : ℤ) ∨ o.price = (2 : ℤ) ∨ o.price = (1 : ℤ) := by
      simp only [List.cons_append, List.nil_append, List.mem_cons, List.not_mem_nil, or_false] at ho
      rcases ho with rfl | rfl | rfl
      · exact Or.inl rfl
      · exact Or.inr (Or.inl rfl)
      · exact Or.inr (Or.inr rfl)
    rcases hcases with h | h | h
    · exact h ▸ hgrid 3
    · exact h ▸ hgrid 2
    · exact h ▸ hgrid 1
  · rw [hside.1, hside.2]
    decide

/-- A price finer than the clearing grid: the rounded price leaves a crossing pair behind. -/
theorem runAuction_offGrid_stays_crossed :
    let price : Decimal := 1 + 1 / 10 ^ 9
    let b := makeOrder 1 1 .buy price 10 1
    let a₁ := makeOrder 2 2 .sell price 5 2
    let a₂ := makeOrder 3 3 .sell (9 / 10) 5 3
    let book := ((OrderBook.empty.insertOrder b).insertOrder a₁).insertOrder a₂
    let events : List Event := [⟨4, 1, .orderMatched 0 ⟨1, 5⟩ ⟨3, 5⟩ 1 5⟩]
    runAuction 0 "BTC-USD" (book.bids "BTC-USD") (book.asks "BTC-USD") =
        some ⟨0, "BTC-USD", 1, 5, [⟨⟨1, 5⟩, ⟨3, 5⟩, 1, 5⟩]⟩ ∧
      (∀ b ∈ book.bids "BTC-USD", ∀ a ∈ book.asks "BTC-USD", b.trader ≠ a.trader) ∧
      (book.applyAll events).bids "BTC-USD" = [b.withRemaining 5] ∧
      (book.applyAll events).asks "BTC-USD" = [a₁] ∧ ¬(b.withRemaining 5).price < a₁.price := by
  decide +kernel

end DarkPool
