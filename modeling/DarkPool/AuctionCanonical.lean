import DarkPool.AuctionVolume

namespace DarkPool

theorem bidPriority.seq_eq {a b : Order} (hab : bidPriority a b) (hba : bidPriority b a) :
    a.seq = b.seq := by
  rcases hab with hab | ⟨hprice, hab⟩
  · exact absurd hba.price_le (not_le.mpr hab)
  · rcases hba with hba | ⟨_, hba⟩
    · exact absurd hprice (ne_of_lt hba)
    · exact Nat.le_antisymm hab hba

theorem askPriority.seq_eq {a b : Order} (hab : askPriority a b) (hba : askPriority b a) :
    a.seq = b.seq := by
  rcases hab with hab | ⟨hprice, hab⟩
  · exact absurd hba.price_le (not_le.mpr hab)
  · rcases hba with hba | ⟨_, hba⟩
    · exact absurd hprice (ne_of_gt hba)
    · exact Nat.le_antisymm hab hba

theorem eq_of_seq_eq {os : List Order} (h : (os.map Order.seq).Nodup) {a b : Order} (ha : a ∈ os)
    (hb : b ∈ os) (hseq : a.seq = b.seq) : a = b :=
  List.inj_on_of_nodup_map h ha hb hseq

section Canonical

variable {r : Order → Order → Prop} [DecidableRel r] [Std.Total r] [IsTrans Order r]

/-- With distinct sequence numbers a priority that ties only on them leaves one sorted list. -/
theorem insertionSort_eq_of_perm (htie : ∀ a b, r a b → r b a → a.seq = b.seq) {os os' : List Order}
    (hseq : (os.map Order.seq).Nodup) (hperm : os.Perm os') : os.insertionSort r = os'.insertionSort r := by
  have hsorted : (os.insertionSort r).Perm (os'.insertionSort r) :=
    (List.perm_insertionSort r os).trans (hperm.trans (List.perm_insertionSort r os').symm)
  refine hsorted.eq_of_pairwise ?_ (List.pairwise_insertionSort r os) (List.pairwise_insertionSort r os')
  intro a b ha hb hab hba
  have ha' : a ∈ os := (List.mem_insertionSort r).mp ha
  have hb' : b ∈ os := hperm.mem_iff.mpr ((List.mem_insertionSort r).mp hb)
  exact eq_of_seq_eq hseq ha' hb' (htie a b hab hba)

end Canonical

/-- The order in which the two sides are handed over does not show in the result. -/
theorem runAuction_input_order (auctionId : Uuid) (pair : String) (bids bids' asks asks' : List Order)
    (hbidSeq : (bids.map Order.seq).Nodup) (haskSeq : (asks.map Order.seq).Nodup)
    (hbids : bids.Perm bids') (hasks : asks.Perm asks') :
    runAuction auctionId pair bids asks = runAuction auctionId pair bids' asks' := by
  have hb := insertionSort_eq_of_perm (fun _ _ => bidPriority.seq_eq) hbidSeq hbids
  have ha := insertionSort_eq_of_perm (fun _ _ => askPriority.seq_eq) haskSeq hasks
  unfold runAuction
  rw [hb, ha]

/-- Two bids at one price, handed over in either order: the earlier placement fills first. -/
theorem runAuction_input_order_sameTick :
    let b₁ := makeOrder 1 1 .buy 3 5 1
    let b₂ := makeOrder 2 2 .buy 3 5 2
    let a := makeOrder 3 3 .sell 1 7 3
    runAuction 0 "BTC-USD" [b₁, b₂] [a] = runAuction 0 "BTC-USD" [b₂, b₁] [a] ∧
      runAuction 0 "BTC-USD" [b₂, b₁] [a] =
        some ⟨0, "BTC-USD", 2, 7, [⟨⟨1, 5⟩, ⟨3, 5⟩, 2, 5⟩, ⟨⟨2, 2⟩, ⟨3, 2⟩, 2, 2⟩]⟩ :=
  ⟨runAuction_input_order 0 "BTC-USD" _ _ _ _ (by decide) (by decide) (List.Perm.swap _ _ _) (List.Perm.refl _),
    by decide +kernel⟩

end DarkPool
