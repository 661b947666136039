import DarkPool.BookLedger

namespace DarkPool

namespace OrderBook

variable {inner inner' : OrderBook}

theorem mem_iterAll (hwf : inner.WF) {o : Order} : o ∈ inner.iterAll ↔ inner.findOrder o.id = some o := by
  refine ⟨fun ho => ?_, mem_iterAll_of_findOrder⟩
  have hall : AllOrders (fun o => inner.findOrder o.id = some o) inner.books := allOrders_of_findOrder hwf (fun _ h => h)
  exact (allOrders_iff inner).mp hall o ho

theorem hasOrder_eq (inner : OrderBook) (id : Uuid) : inner.hasOrder id = (inner.findOrder id).isSome :=
  (Option.isSome_map ..).symm

theorem hasOrder_iff (hwf : inner.WF) {id : Uuid} : inner.hasOrder id = true ↔ ∃ o ∈ inner.iterAll, o.id = id := by
  rw [hasOrder_eq, Option.isSome_iff_exists]
  constructor
  · rintro ⟨o, ho⟩
    exact ⟨o, mem_iterAll_of_findOrder ho, findOrder_id hwf ho⟩
  · rintro ⟨o, ho, rfl⟩
    exact ⟨o, (mem_iterAll hwf).mp ho⟩

/-- No id is listed twice, in whichever pair and on whichever side. -/
theorem iterAll_ids_nodup (hwf : inner.WF) : (inner.iterAll.map Order.id).Nodup := by
  have hat : ∀ e ∈ inner.books.entries, ∀ o ∈ e.2.bids.values ++ e.2.asks.values,
      ∃ side, inner.lookupAt e.1 side o.id = some o := by
    intro e he o ho
    have hbook := Table.mem_entries.mp he
    have hside : ∃ side, o ∈ (e.2.side side).values := by
      rcases List.mem_append.mp ho with ho | ho
      · exact ⟨.buy, ho⟩
      · exact ⟨.sell, ho⟩
    obtain ⟨side, ho⟩ := hside
    obtain ⟨id, hid⟩ := Table.mem_values.mp ho
    have hslot := lookupAt_of_book hbook hid
    exact ⟨side, (hwf.keyed hslot).1 ▸ hslot⟩
  rw [iterAll, Table.values, List.flatMap_map, List.map_flatMap, List.nodup_flatMap]
  constructor
  · intro e he
    have hbook := Table.mem_entries.mp he
    have hids : ∀ side, ((e.2.side side).values.map Order.id).Nodup :=
      fun side => Table.values_map_nodup (fun hk => (hwf.keyed (lookupAt_of_book hbook hk)).1)
    rw [List.map_append]
    refine (hids .buy).append (hids .sell) ?_
    intro id hb ha
    obtain ⟨b, hbm, rfl⟩ := List.mem_map.mp hb
    obtain ⟨a, ham, heq⟩ := List.mem_map.mp ha
    obtain ⟨kb, hkb⟩ := Table.mem_values.mp hbm
    obtain ⟨ka, hka⟩ := Table.mem_values.mp ham
    have hbid : inner.lookupAt e.1 .buy kb = some b := lookupAt_of_book hbook hkb
    have hask : inner.lookupAt e.1 .sell ka = some a := lookupAt_of_book hbook hka
    obtain ⟨rfl, -, hsb⟩ := hwf.keyed hbid
    obtain ⟨rfl, -, hsa⟩ := hwf.keyed hask
    rw [heq] at hask
    rw [hwf.unique hask hbid, hsb] at hsa
    exact Side.noConfusion hsa
  · refine (List.nodupKeys_iff_pairwise.mp inner.books.nodupKeys).imp_of_mem ?_
    intro e e' he he' hne id hid hid'
    obtain ⟨o, ho, rfl⟩ := List.mem_map.mp hid
    obtain ⟨o', ho', heq⟩ := List.mem_map.mp hid'
    obtain ⟨side, hslot⟩ := hat e he o ho
    obtain ⟨side', hslot'⟩ := hat e' he' o' ho'
    rw [heq] at hslot'
    have hsame := hwf.unique hslot hslot'
    exact hne ((hwf.keyed hslot).2.1.symm.trans (hsame ▸ (hwf.keyed hslot').2.1))

/-- An order of the book with the same id and trader. -/
def Kin (inner : OrderBook) (o : Order) : Prop := ∃ o' ∈ inner.iterAll, o'.id = o.id ∧ o'.trader = o.trader

/-- The orders of the traders that `P` picks. -/
def countFor (inner : OrderBook) (P : Address → Bool) : Nat := (inner.iterAll.filter (fun o => P o.trader)).length

theorem activeOrderCount_eq (inner : OrderBook) : inner.activeOrderCount = inner.countFor (fun _ => true) := by
  rw [countFor, List.filter_true]
  rfl

theorem activeOrderCountForTrader_eq (inner : OrderBook) (trader : Address) :
    inner.activeOrderCountForTrader trader = inner.countFor (fun t => t = trader) := rfl

theorem countFor_le_length (hwf : inner.WF) {P : Address → Bool} {ids : List Uuid}
    (h : ∀ o ∈ inner.iterAll, P o.trader = true → o.id ∈ ids) : inner.countFor P ≤ ids.length := by
  have hnodup : ((inner.iterAll.filter (fun o => P o.trader)).map Order.id).Nodup :=
    (iterAll_ids_nodup hwf).sublist (List.filter_sublist.map Order.id)
  have hsub : (inner.iterAll.filter (fun o => P o.trader)).map Order.id ⊆ ids := by
    intro id hid
    obtain ⟨o, ho, rfl⟩ := List.mem_map.mp hid
    exact h o (List.mem_filter.mp ho).1 (List.mem_filter.mp ho).2
  have hle := (hnodup.subperm hsub).length_le
  rwa [List.length_map] at hle

theorem Kin.mem_ids {o : Order} (h : inner.Kin o) {P : Address → Bool} (hP : P o.trader = true) :
    o.id ∈ (inner.iterAll.filter (fun o => P o.trader)).map Order.id := by
  obtain ⟨o', ho', hid, htrader⟩ := h
  exact List.mem_map.mpr ⟨o', List.mem_filter.mpr ⟨ho', htrader ▸ hP⟩, hid⟩

theorem countFor_le_of_kin (hwf : inner'.WF) (h : ∀ o ∈ inner'.iterAll, inner.Kin o) (P : Address → Bool) :
    inner'.countFor P ≤ inner.countFor P := by
  have hle := countFor_le_length hwf (fun o ho (hP : P o.trader = true) => (h o ho).mem_ids hP)
  rwa [List.length_map] at hle

/-- One more order counts once, and only for its trader. -/
theorem countFor_le_succ (hwf : inner'.WF) {new : Order} (h : ∀ o ∈ inner'.iterAll, o = new ∨ inner.Kin o)
    (P : Address → Bool) : inner'.countFor P ≤ inner.countFor P + if P new.trader then 1 else 0 := by
  by_cases hnew : P new.trader = true
  · have hmem : ∀ o ∈ inner'.iterAll, P o.trader = true →
        o.id ∈ new.id :: (inner.iterAll.filter (fun o => P o.trader)).map Order.id := by
      intro o ho hP
      rcases h o ho with rfl | hkin
      · exact List.mem_cons_self
      · exact List.mem_cons_of_mem _ (hkin.mem_ids hP)
    have hle := countFor_le_length hwf hmem
    rw [List.length_cons, List.length_map] at hle
    rw [if_pos hnew]
    exact hle
  · have hmem : ∀ o ∈ inner'.iterAll, P o.trader = true →
        o.id ∈ (inner.iterAll.filter (fun o => P o.trader)).map Order.id := by
      intro o ho hP
      rcases h o ho with rfl | hkin
      · exact absurd hP hnew
      · exact hkin.mem_ids hP
    have hle := countFor_le_length hwf hmem
    rw [List.length_map] at hle
    rw [if_neg hnew, add_zero]
    exact hle

end OrderBook

theorem ensureOrderCapacity_eq_ok {st : EngineState} {trader : Address} :
    ensureOrderCapacity st trader = .ok () ↔
      st.book.activeOrderCount < maxActiveOrders ∧ st.book.activeOrderCountForTrader trader < maxActiveOrdersPerTrader := by
  simp only [ensureOrderCapacity, guard_eq_ok, not_le, and_true]

namespace System

variable {env : Env} {σ σ' : System env} {m : Move}

/-- Orders only come to rest by being placed. -/
theorem Effect.kin (heffect : σ.Effect m σ') (h : Recorded σ) :
    (∀ o ∈ σ'.world.state.book.iterAll, σ.world.state.book.Kin o) ∨
      ∃ ev placed, σ'.log = σ.log ++ [ev] ∧ World.Places σ.world σ'.world ev placed ∧
        ∀ o ∈ σ'.world.state.book.iterAll, o = placed.order ∨ σ.world.state.book.Kin o := by
  have hbooks' := (heffect.recorded h).books
  have hself : AllOrders σ.world.state.book.Kin (projectLog env σ.log).books :=
    h.books ▸ (allOrders_iff _).mpr (fun o ho => ⟨o, ho, rfl, rfl⟩)
  rcases heffect.placed with ⟨ev, placed, hlog, hplaces⟩ | ⟨es, hlog, hes⟩
  · refine Or.inr ⟨ev, placed, hlog, hplaces, (allOrders_iff _).mp ?_⟩
    rw [hbooks', hlog, projectLog_append, Projection.applyAll, List.foldl_cons, List.foldl_nil,
      books_apply_placed hplaces.placed]
    exact OrderBook.all_insertOrder (fun book hbook side o ho => Or.inr (hself book hbook side o ho)) (Or.inl rfl)
  · refine Or.inl ((allOrders_iff _).mp ?_)
    rw [hbooks', hlog, projectLog_append]
    refine allOrders_applyAll hself (fun ev _ fill _ o ho _ => ho) ?_
    intro ev hev id c proof ct hdata o hread
    exact absurd ((placed_of_data hdata hread).symm.trans (hes ev hev)) (by simp)

/-- The book keeps to the caps on resting orders. -/
structure Capped (σ : System env) : Prop extends Recorded σ where
  ledger : Ledger env σ.log
  total : σ.world.state.book.activeOrderCount ≤ maxActiveOrders
  trader : ∀ t, σ.world.state.book.activeOrderCountForTrader t ≤ maxActiveOrdersPerTrader

theorem capped_initial (env : Env) : Capped (initial env) where
  toRecorded := recorded_initial env
  ledger := ledger_nil env
  total := Nat.zero_le _
  trader := fun _ => Nat.zero_le _

theorem Effect.ledger (heffect : σ.Effect m σ') (hrec : Recorded σ) (h : Ledger env σ.log) : Ledger env σ'.log := by
  rcases heffect.placed with ⟨ev, o, hlog, hplaces⟩ | ⟨es, hlog, hes⟩
  · rw [hlog]
    refine h.placed hplaces.placed ?_ hplaces.sized
    by_contra hsome
    exact hplaces.fresh (hrec.used _ (Option.ne_none_iff_isSome.mp hsome))
  · obtain ⟨es', hlog', hfills⟩ := heffect.fills
    obtain rfl : es' = es := List.append_cancel_left (hlog'.symm.trans hlog)
    rw [hlog]
    rcases hfills with hnone | ⟨start, pair, auctionId, result, hrun, hdata, -⟩
    · exact h.idle hes hnone
    · exact h.round hrec.books (tickRound_eq_some.mp hrun).1 hdata hes

theorem Capped.step (h : Capped σ) (hstep : σ.step m = some σ') : Capped σ' := by
  have heffect := step_effect h.toKept hstep
  have hrec' := h.toRecorded.step hstep
  have hwf' : σ'.world.state.book.WF := hrec'.filed.book_wf hrec'.books
  rcases heffect.kin h.toRecorded with hkin | ⟨ev, placed, -, hplaces, hkin⟩
  · refine ⟨hrec', heffect.ledger h.toRecorded h.ledger, ?_, fun t => ?_⟩
    · have hle := OrderBook.countFor_le_of_kin hwf' hkin (fun _ => true)
      rw [← OrderBook.activeOrderCount_eq, ← OrderBook.activeOrderCount_eq] at hle
      exact hle.trans h.total
    · exact (OrderBook.countFor_le_of_kin hwf' hkin (fun t' => t' = t)).trans (h.trader t)
  · obtain ⟨htotal, htrader⟩ := ensureOrderCapacity_eq_ok.mp hplaces.capacity
    refine ⟨hrec', heffect.ledger h.toRecorded h.ledger, ?_, fun t => ?_⟩
    · have hle := OrderBook.countFor_le_succ hwf' hkin (fun _ => true)
      rw [← OrderBook.activeOrderCount_eq, ← OrderBook.activeOrderCount_eq, if_pos rfl] at hle
      exact hle.trans htotal
    · have hle := OrderBook.countFor_le_succ hwf' hkin (fun t' => t' = t)
      rw [← OrderBook.activeOrderCountForTrader_eq, ← OrderBook.activeOrderCountForTrader_eq] at hle
      by_cases hsame : placed.order.trader = t
      · rw [if_pos (decide_eq_true hsame)] at hle
        exact hle.trans (hsame ▸ htrader)
      · rw [if_neg (by simpa using hsame)] at hle
        exact hle.trans (h.trader t)

end System

end DarkPool
