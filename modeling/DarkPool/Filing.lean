import DarkPool.BookOrders
import DarkPool.Placed

namespace DarkPool

/-- Every order the log ever placed, under its id. -/
def directory (env : Env) (log : List Event) : Table Uuid Order := log.foldl (listPlaced env) ∅

/-- The order as it was placed, but for what has been filled of it. -/
def Listed (t : Table Uuid Order) (o : Order) : Prop :=
  ∃ placed, t.lookup o.id = some placed ∧ o = placed.withRemaining o.remainingSize

/-- The resting orders of a log are filed once each, as the placements of the log list them, and every
placement has an id of its own. -/
structure Filed (env : Env) (log : List Event) : Prop where
  wf : OrderBook.WF ⟨(projectLog env log).books, 0⟩
  listed : AllOrders (Listed (directory env log)) (projectLog env log).books
  own : ∀ ev ∈ log, ∀ o, ev.placed env = some o → (directory env log).lookup o.order.id = some o.order

section Log

variable {env : Env} {log es : List Event} {ev : Event}

theorem directory_placed {o : ReplayedOrder} (h : ev.placed env = some o) :
    directory env (log ++ [ev]) = (directory env log).insert o.order.id o.order := by
  rw [directory, List.foldl_append, List.foldl_cons, List.foldl_nil, listPlaced_eq, h]
  rfl

theorem directory_unplaced (h : ∀ ev ∈ es, ev.placed env = none) : directory env (log ++ es) = directory env log := by
  rw [directory, List.foldl_append]
  change es.foldl (listPlaced env) (directory env log) = directory env log
  induction es with
  | nil => rfl
  | cons ev es ih =>
    rw [List.foldl_cons, listPlaced_eq, h ev List.mem_cons_self]
    exact ih (fun e he => h e (List.mem_cons_of_mem ev he))

/-- What is listed was placed. -/
theorem directory_lookup {id : Uuid} {o : Order} (h : (directory env log).lookup id = some o) :
    ∃ ev ∈ log, ∃ placed, ev.placed env = some placed ∧ placed.order.id = id ∧ placed.order = o := by
  induction log using List.reverseRecOn with
  | nil => simp [directory] at h
  | append_singleton log ev ih =>
    have hold : (directory env log).lookup id = some o →
        ∃ e ∈ log ++ [ev], ∃ placed, e.placed env = some placed ∧ placed.order.id = id ∧ placed.order = o := by
      intro h
      obtain ⟨e, he, hrest⟩ := ih h
      exact ⟨e, List.mem_append_left _ he, hrest⟩
    cases hplaced : ev.placed env with
    | none =>
      rw [directory_unplaced (by simpa using hplaced)] at h
      exact hold h
    | some placed =>
      rw [directory_placed hplaced, Table.lookup_insert_eq] at h
      split at h
      next heq => exact ⟨ev, List.mem_append_right _ List.mem_cons_self, placed, hplaced, heq.symm, Option.some.inj h⟩
      next => exact hold h

theorem projectLog_append (env : Env) (log es : List Event) :
    projectLog env (log ++ es) = (projectLog env log).applyAll env es := Projection.applyAll_append ..

theorem Listed.withRemaining {t : Table Uuid Order} {o : Order} (h : Listed t o) (n : Decimal) :
    Listed t (o.withRemaining n) := by
  obtain ⟨placed, hlookup, heq⟩ := h
  refine ⟨placed, hlookup, ?_⟩
  rw [heq]
  rfl

theorem filed_nil (env : Env) : Filed env [] where
  wf := OrderBook.wf_empty
  listed := AllOrders.empty
  own := by simp

theorem wf_apply_unplaced {p : Projection} (hwf : OrderBook.WF ⟨p.books, 0⟩) (h : ev.placed env = none) :
    OrderBook.WF ⟨(p.apply env ev).books, 0⟩ := by
  have hdata : ∀ data, OrderBook.WF ⟨applyBooks p.books data, 0⟩ :=
    fun data => OrderBook.wf_withSeq (OrderBook.wf_applyData hwf data) 0
  unfold Event.placed at h
  unfold Projection.apply
  cases hev : ev.data with
  | orderPlaced id c proof ct =>
    rw [hev] at h
    dsimp only at h ⊢
    cases hread : replayOrder env ev id c ct with
    | error e => exact hwf
    | ok o => simp [hread, Except.toOption] at h
  | orderCancelled orderId reason => exact hdata _
  | orderExpired orderId => exact hdata _
  | orderMatched auctionId bid ask price size => exact hdata _
  | _ => exact hwf

theorem wf_applyAll_unplaced {p : Projection} (hwf : OrderBook.WF ⟨p.books, 0⟩) (h : ∀ ev ∈ es, ev.placed env = none) :
    OrderBook.WF ⟨(p.applyAll env es).books, 0⟩ := by
  induction es generalizing p with
  | nil => exact hwf
  | cons ev es ih =>
    exact ih (wf_apply_unplaced hwf (h ev List.mem_cons_self)) (fun e he => h e (List.mem_cons_of_mem ev he))

/-- Events that place nothing keep the filing. -/
theorem Filed.unplaced (h : Filed env log) (hes : ∀ ev ∈ es, ev.placed env = none) : Filed env (log ++ es) where
  wf := by
    rw [projectLog_append]
    exact wf_applyAll_unplaced h.wf hes
  listed := by
    rw [projectLog_append, directory_unplaced hes]
    refine allOrders_applyAll h.listed (fun ev _ fill _ o ho _ => ho.withRemaining _) ?_
    intro ev hev id c proof ct hdata o hread
    exact absurd ((placed_of_data hdata hread).symm.trans (hes ev hev)) (by simp)
  own := by
    rw [directory_unplaced hes]
    intro ev hev o ho
    rcases List.mem_append.mp hev with hev | hev
    · exact h.own ev hev o ho
    · rw [hes ev hev] at ho
      simp at ho

/-- An order stays listed as it was. -/
theorem Filed.directory_append (h : Filed env (log ++ es)) {id : Uuid} {o : Order}
    (hid : (directory env log).lookup id = some o) : (directory env (log ++ es)).lookup id = some o := by
  obtain ⟨ev, hev, placed, hplaced, rfl, rfl⟩ := directory_lookup hid
  exact h.own ev (List.mem_append_left _ hev) placed hplaced

theorem Filed.book_wf (h : Filed env log) {book : OrderBook} (hbooks : book.books = (projectLog env log).books) :
    book.WF := by
  have hlogged := OrderBook.wf_withSeq h.wf book.seq
  rwa [← hbooks] at hlogged

/-- An order with an id that is not listed does not rest anywhere. -/
theorem Filed.findOrder_eq_none (h : Filed env log) {id : Uuid} (hid : (directory env log).lookup id = none) :
    OrderBook.findOrder ⟨(projectLog env log).books, 0⟩ id = none := by
  cases hfind : OrderBook.findOrder ⟨(projectLog env log).books, 0⟩ id with
  | none => rfl
  | some o =>
    obtain ⟨r, hr, rfl⟩ := Option.map_eq_some_iff.mp hfind
    obtain ⟨placed, hlookup, -⟩ := (OrderBook.all_locate h.listed hr).2
    rw [OrderBook.findOrder_id h.wf hfind, hid] at hlookup
    simp at hlookup

/-- A resting order is the one that the placement of its id placed. -/
theorem Filed.eq_placed (h : Filed env log) {o : Order} (hfind : OrderBook.findOrder ⟨(projectLog env log).books, 0⟩ o.id = some o)
    (hev : ev ∈ log) {placed : ReplayedOrder} (hplaced : ev.placed env = some placed) (hid : placed.order.id = o.id) :
    o = placed.order.withRemaining o.remainingSize := by
  obtain ⟨r, hr, hro⟩ := Option.map_eq_some_iff.mp hfind
  obtain ⟨placed', hlookup, heq⟩ := (OrderBook.all_locate h.listed hr).2
  rw [hro] at hlookup heq
  have hown := h.own ev hev placed hplaced
  rw [hid, hlookup] at hown
  exact Option.some.inj hown ▸ heq

/-- So does a placement under a new id. -/
theorem Filed.placed (h : Filed env log) {o : ReplayedOrder} (ho : ev.placed env = some o)
    (hnew : (directory env log).lookup o.order.id = none) : Filed env (log ++ [ev]) := by
  have hmono : ∀ id placed, (directory env log).lookup id = some placed →
      ((directory env log).insert o.order.id o.order).lookup id = some placed := by
    intro id placed hid
    rw [Table.lookup_insert_eq, if_neg, hid]
    rintro rfl
    rw [hnew] at hid
    simp at hid
  have hbooks : (projectLog env (log ++ [ev])).books =
      (OrderBook.insertOrder ⟨(projectLog env log).books, 0⟩ o.order).books := by
    rw [projectLog_append, Projection.applyAll, List.foldl_cons, List.foldl_nil, books_apply_placed ho]
    rfl
  refine ⟨?_, ?_, ?_⟩
  · rw [hbooks]
    exact OrderBook.wf_insertOrder h.wf (h.findOrder_eq_none hnew)
  · rw [hbooks, directory_placed ho]
    refine OrderBook.all_insertOrder ?_ ⟨o.order, by rw [Table.lookup_insert_eq, if_pos rfl], rfl⟩
    intro book hbook side x hx
    obtain ⟨placed, hlookup, heq⟩ := h.listed book hbook side x hx
    exact ⟨placed, hmono _ _ hlookup, heq⟩
  · rw [directory_placed ho]
    intro e he o' ho'
    rcases List.mem_append.mp he with he | he
    · exact hmono _ _ (h.own e he o' ho')
    · rw [List.mem_singleton.mp he, ho] at ho'
      cases Option.some.inj ho'
      rw [Table.lookup_insert_eq, if_pos rfl]

end Log

namespace System

variable {env : Env} {σ σ' : System env} {m : Move}

/-- An id in use stays in use, also when the engine is restarted. -/
theorem Effect.used (h : σ.Effect m σ') {id : Uuid} (hid : σ.world.Used id) : σ'.world.Used id := by
  cases h with
  | op step effect => exact effect.frame.used id hid
  | capture idle => exact hid
  | publish store world log holds tail covered envelopes =>
    rw [world]
    exact hid
  | restart out start seq r es recovers fresh =>
    exact ⟨List.mem_append_right _ hid.1, by simp [World.reserved, withWorld, World.restarted, World.initial]⟩

/-- The log is filed under ids that are in use. -/
structure Known (σ : System env) : Prop where
  filed : Filed env σ.log
  used : ∀ id, ((directory env σ.log).lookup id).isSome → σ.world.Used id

theorem known_initial (env : Env) : Known (initial env) where
  filed := filed_nil env
  used := by simp [directory, initial, log, World.log, World.initial, Store.empty]

theorem Effect.known (heffect : σ.Effect m σ') (h : Known σ) : Known σ' := by
  rcases heffect.placed with ⟨ev, o, hlog, hplaces⟩ | ⟨es, hlog, hes⟩
  · have hnew : (directory env σ.log).lookup o.order.id = none := by
      by_contra hsome
      exact hplaces.fresh (h.used _ (Option.ne_none_iff_isSome.mp hsome))
    refine ⟨hlog ▸ h.filed.placed hplaces.placed hnew, fun id hid => ?_⟩
    rw [hlog, directory_placed hplaces.placed, Table.lookup_insert_eq] at hid
    split at hid
    next heq => exact heq ▸ hplaces.used
    next => exact heffect.used (h.used id hid)
  · refine ⟨hlog ▸ h.filed.unplaced hes, fun id hid => ?_⟩
    rw [hlog, directory_unplaced hes] at hid
    exact heffect.used (h.used id hid)

/-- The book is what the log means, and the log is filed. -/
structure Recorded (σ : System env) : Prop extends Follows (fun _ _ => True) σ, Known σ

theorem recorded_initial (env : Env) : Recorded (initial env) := ⟨follows_initial registryRel_true env, known_initial env⟩

theorem Effect.recorded (heffect : σ.Effect m σ') (h : Recorded σ) : Recorded σ' :=
  ⟨heffect.follows registryRel_true h.toFollows (fun _ _ => trivial), heffect.known h.toKnown⟩

theorem Recorded.books (h : Recorded σ) : σ.world.state.book.books = (projectLog env σ.log).books := h.same.books

end System

end DarkPool
