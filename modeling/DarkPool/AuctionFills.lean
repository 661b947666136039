import DarkPool.AuctionVolume

namespace DarkPool

open GreedyFill

/-- What the matches take from the bid `id`. -/
def bidFilled (ms : List Match) (id : Uuid) : Decimal :=
  ((ms.filter (fun m => m.bid.orderId = id)).map (fun m => m.bid.size)).sum

/-- What the matches take from the ask `id`. -/
def askFilled (ms : List Match) (id : Uuid) : Decimal :=
  ((ms.filter (fun m => m.ask.orderId = id)).map (fun m => m.ask.size)).sum

theorem eq_of_id_eq {os : List Order} (h : (os.map Order.id).Nodup) {a b : Order} (ha : a ∈ os)
    (hb : b ∈ os) (he : a.id = b.id) : a = b :=
  List.inj_on_of_nodup_map h ha hb he

theorem nodup_of_id_nodup {os : List Order} (h : (os.map Order.id).Nodup) : os.Nodup :=
  List.Nodup.of_map _ h

theorem ids_nodup_sorted {os : List Order} (h : (os.map Order.id).Nodup) (r : Order → Order → Prop)
    [DecidableRel r] : ((os.insertionSort r).map Order.id).Nodup :=
  ((List.perm_insertionSort r os).map Order.id).symm.nodup h

section Sides

variable {bids asks : List Order} {price : Decimal}

theorem bidFilled_eq_bought (hids : (bids.map Order.id).Nodup) {b : Order} (hb : b ∈ bids) :
    bidFilled (matchOrders bids asks price) b.id = bought (fillPlan bids asks price).trades b := by
  rw [matchOrders_eq_fillPlan, bidFilled, List.filter_map, List.map_map, bought, total]
  have hfilter : (fillPlan bids asks price).trades.filter
      ((fun m : Match => decide (m.bid.orderId = b.id)) ∘ tradeMatch price) =
      (fillPlan bids asks price).trades.filter (fun t => t.buyer = b) := by
    apply List.filter_congr
    intro t ht
    have hbuyer := (mem_eligibleBids.mp (fillPlan_trade ht).1).1
    simp only [Function.comp_apply, decide_eq_decide]
    exact ⟨eq_of_id_eq hids hbuyer hb, fun h => h ▸ rfl⟩
  rw [hfilter]
  rfl

theorem askFilled_eq_sold (hids : (asks.map Order.id).Nodup) {a : Order} (ha : a ∈ asks) :
    askFilled (matchOrders bids asks price) a.id = sold (fillPlan bids asks price).trades a := by
  rw [matchOrders_eq_fillPlan, askFilled, List.filter_map, List.map_map, sold, total]
  have hfilter : (fillPlan bids asks price).trades.filter
      ((fun m : Match => decide (m.ask.orderId = a.id)) ∘ tradeMatch price) =
      (fillPlan bids asks price).trades.filter (fun t => t.seller = a) := by
    apply List.filter_congr
    intro t ht
    have hseller := (mem_eligibleAsks.mp (fillPlan_trade ht).2.1).1
    simp only [Function.comp_apply, decide_eq_decide]
    exact ⟨eq_of_id_eq hids hseller ha, fun h => h ▸ rfl⟩
  rw [hfilter]
  rfl

theorem eligibleBids_nodup (hids : (bids.map Order.id).Nodup) : (eligibleBids bids price).Nodup :=
  (nodup_of_id_nodup hids).filter _

theorem eligibleAsks_nodup (hids : (asks.map Order.id).Nodup) : (eligibleAsks asks price).Nodup :=
  (nodup_of_id_nodup hids).filter _

/-- The plan leaves each eligible bid with its size less its fills. -/
theorem fillPlan_buyers (hids : (bids.map Order.id).Nodup) :
    (fillPlan bids asks price).buyers = (eligibleBids bids price).map
      (fun b => (b, b.remainingSize - bidFilled (matchOrders bids asks price) b.id)) := by
  rw [fillPlan, fillAll_buyers _ (by rw [map_weigh_fst]; exact eligibleBids_nodup hids), List.map_map]
  apply List.map_congr_left
  intro b hb
  rw [bidFilled_eq_bought hids (mem_eligibleBids.mp hb).1]
  rfl

theorem fillPlan_sellers (hids : (asks.map Order.id).Nodup) :
    (fillPlan bids asks price).sellers = (eligibleAsks asks price).map
      (fun a => (a, a.remainingSize - askFilled (matchOrders bids asks price) a.id)) := by
  rw [fillPlan, fillAll_sellers _ (by rw [map_weigh_fst]; exact eligibleAsks_nodup hids), List.map_map]
  apply List.map_congr_left
  intro a ha
  rw [askFilled_eq_sold hids (mem_eligibleAsks.mp ha).1]
  rfl

theorem bidFilled_le (hids : (bids.map Order.id).Nodup) {b : Order} (hb : b ∈ eligibleBids bids price) :
    bidFilled (matchOrders bids asks price) b.id ≤ b.remainingSize := by
  have hnonneg : ∀ x ∈ (fillPlan bids asks price).buyers, 0 ≤ x.2 := by
    apply fillAll_buyers_nonneg
    intro x hx
    obtain ⟨o, ho, rfl⟩ := List.mem_map.mp hx
    exact (mem_eligibleBids.mp ho).2.2.le
  rw [fillPlan_buyers hids] at hnonneg
  exact sub_nonneg.mp (hnonneg _ (List.mem_map.mpr ⟨b, hb, rfl⟩))

theorem askFilled_le (hids : (asks.map Order.id).Nodup) {a : Order} (ha : a ∈ eligibleAsks asks price) :
    askFilled (matchOrders bids asks price) a.id ≤ a.remainingSize := by
  have hnonneg : ∀ x ∈ (fillPlan bids asks price).sellers, 0 ≤ x.2 := by
    apply fillAll_sellers_nonneg
    intro x hx
    obtain ⟨o, ho, rfl⟩ := List.mem_map.mp hx
    exact (mem_eligibleAsks.mp ho).2.2.le
  rw [fillPlan_sellers hids] at hnonneg
  exact sub_nonneg.mp (hnonneg _ (List.mem_map.mpr ⟨a, ha, rfl⟩))

theorem bidFilled_eq_zero {ms : List Match} {id : Uuid} (h : ∀ m ∈ ms, m.bid.orderId ≠ id) :
    bidFilled ms id = 0 := by
  have hnil : ms.filter (fun m => m.bid.orderId = id) = [] := by
    apply List.filter_eq_nil_iff.mpr
    intro m hm
    simpa using h m hm
  simp [bidFilled, hnil]

theorem askFilled_eq_zero {ms : List Match} {id : Uuid} (h : ∀ m ∈ ms, m.ask.orderId ≠ id) :
    askFilled ms id = 0 := by
  have hnil : ms.filter (fun m => m.ask.orderId = id) = [] := by
    apply List.filter_eq_nil_iff.mpr
    intro m hm
    simpa using h m hm
  simp [askFilled, hnil]

end Sides

/-- Of two members of a list sorted by `r`, the strictly better one comes first. -/
theorem forall_of_sorted_pairwise {α : Type} {r p strict : α → α → Prop} {xs : List α}
    (hsorted : xs.Pairwise r) (hp : xs.Pairwise p) (hstrict : ∀ x y, strict x y → ¬r y x)
    (hirrefl : ∀ x, ¬strict x x) : ∀ x ∈ xs, ∀ y ∈ xs, strict x y → p x y := by
  have hfwd : xs.Pairwise (fun x y => strict x y → p x y) := by
    refine hp.imp ?_
    intro x y h _
    exact h
  have hbwd : xs.Pairwise (flip (fun x y => strict x y → p x y)) := by
    refine hsorted.imp ?_
    intro x y hr h
    exact absurd hr (hstrict _ _ h)
  intro x hx y hy
  exact List.Pairwise.forall_of_forall_of_flip (fun x _ h => (hirrefl x h).elim) hfwd hbwd hx hy

end DarkPool
