import DarkPool.Filing
import DarkPool.Lib.History
import DarkPool.Ticking

namespace DarkPool

namespace OrderBook

variable {inner : OrderBook} {Q : Order → Prop}

theorem allOrders_of_findOrder (hwf : inner.WF) (h : ∀ o, inner.findOrder o.id = some o → Q o) :
    AllOrders Q inner.books := by
  intro book hbook side o ho
  obtain ⟨pair, hpair⟩ := Table.mem_values.mp hbook
  obtain ⟨id, hid⟩ := Table.mem_values.mp ho
  have hslot := lookupAt_of_book hpair hid
  obtain ⟨rfl, -, -⟩ := hwf.keyed hslot
  exact h o ((findOrder_eq_some hwf).mpr ⟨pair, side, hslot⟩)

theorem mem_orderIdsFor (hwf : inner.WF) {o : Order} (h : inner.findOrder o.id = some o) :
    o.id ∈ inner.orderIdsFor o.pair := by
  obtain ⟨pair, side, hslot⟩ := (findOrder_eq_some hwf).mp h
  obtain ⟨-, rfl, -⟩ := hwf.keyed hslot
  obtain ⟨book, hbook, hside⟩ := Option.bind_eq_some_iff.mp hslot
  unfold orderIdsFor
  rw [hbook]
  have hkey : o.id ∈ (book.side side).keys := Table.mem_iff_lookup.mpr ⟨o, hside⟩
  cases side
  · exact List.mem_append_left _ hkey
  · exact List.mem_append_right _ hkey

end OrderBook

section Ended

variable {env : Env} {p : Projection} {es : List Event} {ev : Event} {pair : String}

/-- The pair is delisted and none of its orders rests. -/
structure Projection.Ended (p : Projection) (pair : String) : Prop where
  delisted : ∃ c, p.pairTokens.lookup pair = some c ∧ c.status = .delisted
  cleared : AllOrders (fun o => o.pair ≠ pair) p.books

/-- The event places no order of the pair, and neither registers nor suspends it. -/
structure Event.Spares (env : Env) (ev : Event) (pair : String) : Prop where
  placed : ∀ o, ev.placed env = some o → o.order.pair ≠ pair
  registered : ∀ key base quote min tick ms bd qd, ev.data = .pairRegistered key base quote min tick ms bd qd →
    canonicaliseReplayedPair key ≠ pair
  suspended : ∀ key, ev.data = .pairSuspended key → canonicaliseReplayedPair key ≠ pair

/-- An event that changes no pair and places no order. -/
def EventData.LeavesPairs : EventData → Prop
  | .orderPlaced _ _ _ _ | .pairRegistered _ _ _ _ _ _ _ _ | .pairSuspended _ | .pairDelisted _ => False
  | _ => True

theorem EventData.LeavesPairs.spares (h : ev.data.LeavesPairs) (pair : String) :
    ev.Spares env pair ∧ ev.data ≠ .pairDelisted pair := by
  refine ⟨⟨fun o ho => ?_, fun key base quote min tick ms bd qd hd => ?_, fun key hd => ?_⟩, fun hd => ?_⟩
  · obtain ⟨id, c, proof, ct, hd, -⟩ := placed_eq_some ho
    rw [hd] at h
    exact h.elim
  all_goals
    rw [hd] at h
    exact h.elim

theorem lookup_setStatus (p : Projection) (key : String) (status : PairStatus) (pair : String) :
    (p.setStatus key status).pairTokens.lookup pair =
      if pair = canonicaliseReplayedPair key then (p.pairTokens.lookup pair).map (fun c => c.withStatus status)
      else p.pairTokens.lookup pair := Table.lookup_modify_eq ..

theorem Projection.Ended.apply (h : p.Ended pair) (hev : ev.Spares env pair) : (p.apply env ev).Ended pair := by
  have hcleared : AllOrders (fun o => o.pair ≠ pair) (p.apply env ev).books :=
    allOrders_apply h.cleared (fun _ _ _ ho _ => ho)
      (fun id c proof ct hdata o hread => hev.placed o (placed_of_data hdata hread))
  refine ⟨?_, hcleared⟩
  obtain ⟨c, hc, hs⟩ := h.delisted
  unfold Projection.apply
  cases hdata : ev.data with
  | orderPlaced id commitment proof ct =>
    dsimp only
    cases hread : replayOrder env ev id commitment ct with
    | error e => exact ⟨c, hc, hs⟩
    | ok o =>
      refine ⟨c, ?_, hs⟩
      simp only [Projection.place, orDefault]
      split
      next => exact hc
      next => rw [Table.lookup_insert_eq, if_neg (hev.placed o (placed_of_data hdata hread)).symm, hc]
  | pairRegistered key base quote min tick ms bd qd =>
    refine ⟨c, ?_, hs⟩
    rw [Table.lookup_insert_eq, if_neg (hev.registered key base quote min tick ms bd qd hdata).symm, hc]
  | pairSuspended key =>
    refine ⟨c, ?_, hs⟩
    rw [lookup_setStatus, if_neg (hev.suspended key hdata).symm, hc]
  | pairDelisted key =>
    dsimp only
    rw [lookup_setStatus]
    split
    next => exact ⟨c.withStatus .delisted, by rw [hc]; rfl, rfl⟩
    next => exact ⟨c, hc, hs⟩
  | _ => exact ⟨c, hc, hs⟩

theorem Projection.Ended.applyAll (h : p.Ended pair) (hes : ∀ ev ∈ es, ev.Spares env pair) :
    (p.applyAll env es).Ended pair := by
  induction es generalizing p with
  | nil => exact h
  | cons ev es ih => exact ih (h.apply (hes ev List.mem_cons_self)) (fun e he => hes e (List.mem_cons_of_mem ev he))

/-- An event that cancels an order or delists the pair. -/
def EventData.Winds (data : EventData) (pair : String) : Prop :=
  data = .pairDelisted pair ∨ ∃ id reason, data = .orderCancelled id reason

theorem findOrder_winds (hwf : OrderBook.WF ⟨p.books, 0⟩) (hes : ∀ ev ∈ es, ev.data.Winds pair) {id : Uuid} {o : Order}
    (h : OrderBook.findOrder ⟨(p.applyAll env es).books, 0⟩ id = some o) :
    OrderBook.findOrder ⟨p.books, 0⟩ id = some o ∧ ∀ ev ∈ es, ∀ reason, ev.data ≠ .orderCancelled id reason := by
  induction es generalizing p with
  | nil => exact ⟨h, by simp⟩
  | cons ev es ih =>
    have hrest := fun e he => hes e (List.mem_cons_of_mem ev he)
    rcases hes ev List.mem_cons_self with hd | ⟨id', reason, hd⟩
    · have hbooks : (p.apply env ev).books = p.books := by rw [Projection.apply, hd]; rfl
      obtain ⟨hfind, hnone⟩ := @ih (p.apply env ev) (hbooks ▸ hwf) hrest h
      rw [hbooks] at hfind
      refine ⟨hfind, fun e he reason => ?_⟩
      rcases List.mem_cons.mp he with rfl | he
      · simp [hd]
      · exact hnone e he reason
    · have hbooks : (p.apply env ev).books = (OrderBook.removeOrder ⟨p.books, 0⟩ id').books := by
        rw [Projection.apply, hd]
        rfl
      have hwf' := OrderBook.wf_withSeq (OrderBook.wf_removeOrder hwf id') 0
      obtain ⟨hfind, hnone⟩ := @ih (p.apply env ev) (hbooks ▸ hwf') hrest h
      have hremoved := OrderBook.findOrder_removeOrder hwf id' id
      rw [hbooks] at hfind
      rw [show OrderBook.findOrder ⟨(OrderBook.removeOrder ⟨p.books, 0⟩ id').books, 0⟩ id =
        (OrderBook.removeOrder ⟨p.books, 0⟩ id').findOrder id from rfl, hremoved] at hfind
      split at hfind
      next => simp at hfind
      next hne =>
        refine ⟨hfind, fun e he reason' => ?_⟩
        rcases List.mem_cons.mp he with rfl | he
        · rw [hd]
          intro heq
          rw [EventData.orderCancelled.injEq] at heq
          exact hne heq.1.symm
        · exact hnone e he reason'

theorem delisted_winds (hkey : canonicaliseReplayedPair pair = pair) (hes : ∀ ev ∈ es, ev.data.Winds pair)
    {c : PairConfig} (hc : p.pairTokens.lookup pair = some c)
    (hmem : c.status = .delisted ∨ ∃ ev ∈ es, ev.data = .pairDelisted pair) :
    ∃ c', (p.applyAll env es).pairTokens.lookup pair = some c' ∧ c'.status = .delisted := by
  induction es generalizing p c with
  | nil => exact ⟨c, hc, hmem.resolve_right (by simp)⟩
  | cons ev es ih =>
    have hrest := fun e he => hes e (List.mem_cons_of_mem ev he)
    rcases hes ev List.mem_cons_self with hd | ⟨id, reason, hd⟩
    · have hlookup : (p.apply env ev).pairTokens.lookup pair = some (c.withStatus .delisted) := by
        rw [Projection.apply, hd]
        dsimp only
        rw [lookup_setStatus, hkey, if_pos rfl, hc]
        rfl
      exact ih hrest hlookup (Or.inl rfl)
    · have hlookup : (p.apply env ev).pairTokens.lookup pair = some c := by
        rw [Projection.apply, hd]
        exact hc
      refine ih hrest hlookup (hmem.imp_right ?_)
      rintro ⟨e, he, hdata⟩
      rcases List.mem_cons.mp he with rfl | he
      · simp [hd] at hdata
      · exact ⟨e, he, hdata⟩

/-- Delisting a registered pair, along with the cancellation of its orders, ends it. -/
theorem ended_of_winds (hwf : OrderBook.WF ⟨p.books, 0⟩) (hkey : canonicaliseReplayedPair pair = pair)
    (hsome : (p.pairTokens.lookup pair).isSome)
    (hids : ∀ id ∈ OrderBook.orderIdsFor ⟨p.books, 0⟩ pair, ∃ ev ∈ es, ∃ reason, ev.data = .orderCancelled id reason)
    (hes : ∀ ev ∈ es, ev.data.Winds pair) (hmem : ∃ ev ∈ es, ev.data = .pairDelisted pair) :
    (p.applyAll env es).Ended pair := by
  obtain ⟨c, hc⟩ := Option.isSome_iff_exists.mp hsome
  have hplaced : ∀ ev ∈ es, ev.placed env = none := by
    intro ev hev
    rcases hes ev hev with hd | ⟨id, reason, hd⟩ <;> exact placed_eq_none (by simp [hd])
  refine ⟨delisted_winds hkey hes hc (Or.inr hmem), ?_⟩
  have hwf' := wf_applyAll_unplaced hwf hplaced
  refine @OrderBook.allOrders_of_findOrder ⟨(p.applyAll env es).books, 0⟩ _ hwf' ?_
  rintro o ho rfl
  obtain ⟨hold, hnone⟩ := findOrder_winds hwf hes ho
  obtain ⟨ev, hev, reason, hd⟩ := hids o.id (OrderBook.mem_orderIdsFor hwf hold)
  exact hnone ev hev reason hd

end Ended

section Trades

variable {env : Env} {log : List Event} {ev : Event} {pair : String}

/-- The event, logged after `before`, places an order of the pair, executes a round of it, or matches an
order that was placed for it. -/
def Trades (env : Env) (pair : String) (before : List Event) (ev : Event) : Prop :=
  (∃ o, ev.placed env = some o ∧ o.order.pair = pair) ∨
  (∃ auctionId price volume count ts, ev.data = .auctionExecuted auctionId pair price volume count ts) ∨
  ∃ auctionId bid ask price size, ev.data = .orderMatched auctionId bid ask price size ∧
    ∃ e ∈ before, ∃ o, e.placed env = some o ∧ (o.order.id = bid.orderId ∨ o.order.id = ask.orderId) ∧
      o.order.pair = pair

/-- An event that trades in no pair. -/
def EventData.Idle : EventData → Prop
  | .orderPlaced _ _ _ _ | .auctionExecuted _ _ _ _ _ _ | .orderMatched _ _ _ _ _ => False
  | _ => True

theorem EventData.Idle.not_trades (h : ev.data.Idle) : ¬ Trades env pair log ev := by
  rintro (⟨o, ho, -⟩ | ⟨a, price, volume, count, ts, hd⟩ | ⟨a, bid, ask, price, size, hd, -⟩)
  · obtain ⟨id, c, proof, ct, hd, -⟩ := placed_eq_some ho
    rw [hd] at h
    exact h
  · rw [hd] at h
    exact h
  · rw [hd] at h
    exact h

theorem EventData.Routine.idle {data : EventData} (h : data.Routine) : data.Idle := by
  cases data <;> trivial

/-- The matches of a round are between orders that were placed for its pair. -/
theorem trades_round (hfiled : Filed env log) {st : EngineState} (hbooks : st.book.books = (projectLog env log).books)
    {auctionId : Uuid} {result : AuctionResult} (hrun : tickRound st pair auctionId = some result) {now : DateTime}
    {es before after : List Event} (hes : es.map Event.data = (auctionEvents now result).map Event.data)
    (hsplit : es = before ++ ev :: after) {pair' : String} (htrades : Trades env pair' (log ++ before) ev) :
    pair' = pair := by
  have hunplaced : ∀ e ∈ es, e.placed env = none := by
    intro e he
    rcases mem_round hes he with hd | ⟨m, -, hd⟩
    · exact placed_eq_none (by simp [hd, executedEvent, Event.unsequenced])
    · exact placed_eq_none (by simp [hd])
  have hev : ev ∈ es := hsplit ▸ List.mem_append_right _ List.mem_cons_self
  obtain ⟨hid, hpair⟩ := tickRound_ids hrun
  rcases htrades with ⟨o, ho, -⟩ | ⟨a, price, volume, count, ts, hd⟩ | ⟨a, bid, ask, price, size, hd, e, he, o, ho, hfill, rfl⟩
  · rw [hunplaced ev hev] at ho
    simp at ho
  · rcases mem_round hes hev with hd' | ⟨m, -, hd'⟩
    · rw [hd, executedEvent, Event.unsequenced, EventData.auctionExecuted.injEq] at hd'
      exact hd'.2.1.trans hpair
    · simp [hd] at hd'
  · rcases mem_round hes hev with hd' | ⟨m, hm, hd'⟩
    · simp [hd, executedEvent, Event.unsequenced] at hd'
    · rw [hd, EventData.orderMatched.injEq] at hd'
      obtain ⟨-, rfl, rfl, -⟩ := hd'
      have hlog : e ∈ log := by
        rcases List.mem_append.mp he with he | he
        · exact he
        · rw [hunplaced e (hsplit ▸ List.mem_append_left _ he)] at ho
          simp at ho
      -- Both orders rest in the sub-book of the pair.
      have hwf : st.book.WF := hfiled.book_wf hbooks
      obtain ⟨b, hb, a', ha, -, -, -, -, -, -, heq⟩ := runAuction_match (tickRound_eq_some.mp hrun).1 hm
      obtain ⟨hbfind, hbpair, -⟩ := (OrderBook.mem_bids hwf).mp hb
      obtain ⟨hafind, hapair, -⟩ := (OrderBook.mem_asks hwf).mp ha
      rw [heq] at hfill
      rcases hfill with hfill | hfill
      · have hplaced := hfiled.eq_placed (hbooks ▸ hbfind) hlog ho hfill
        rw [← hbpair, hplaced]
        rfl
      · have hplaced := hfiled.eq_placed (hbooks ▸ hafind) hlog ho hfill
        rw [← hapair, hplaced]
        rfl

end Trades

/-- A configuration that the log delists is delisted. -/
def KeepsDelisted (c c' : PairConfig) : Prop := c'.status = .delisted → c.status = .delisted

theorem registryRel_keepsDelisted : RegistryRel KeepsDelisted := ⟨fun _ h => h, fun _ _ h => h⟩

theorem keepsDelisted_logged (config : PairConfig) : KeepsDelisted config config.logged := by
  intro h
  simp [PairConfig.logged, replayedConfig] at h

theorem checkAccepting_ok {st : EngineState} {pair : String} (h : checkAccepting st pair = .ok ()) :
    st.HasStatus pair .active := by
  unfold checkAccepting at h
  split at h
  next c hc =>
    split at h
    next hactive => exact ⟨c, hc, hactive⟩
    next => simp at h
  next => simp at h

namespace System

variable {env : Env} {σ σ' : System env} {m : Move} {R : PairConfig → PairConfig → Prop} {pair : String}

/-- Whatever a move logs, it trades in active pairs only, and delists none of them. -/
theorem Effect.trades (heffect : σ.Effect m σ') (hfollows : Follows R σ) (hknown : Known σ) (htick : σ.world.Ticking) :
    ∃ es, σ'.log = σ.log ++ es ∧ ∀ before ev after, es = before ++ ev :: after → ∀ pair,
      Trades env pair (σ.log ++ before) ev →
      σ.world.state.HasStatus pair .active ∧ ∀ e ∈ es, e.data ≠ .pairDelisted pair := by
  have hidle : ∀ es, σ'.log = σ.log ++ es → (∀ ev ∈ es, ev.data.Idle) → ∃ es, σ'.log = σ.log ++ es ∧
      ∀ before ev after, es = before ++ ev :: after → ∀ pair, Trades env pair (σ.log ++ before) ev →
      σ.world.state.HasStatus pair .active ∧ ∀ e ∈ es, e.data ≠ .pairDelisted pair := by
    intro es hlog hes
    refine ⟨es, hlog, fun before ev after hsplit pair htrades => absurd htrades ?_⟩
    exact (hes ev (hsplit ▸ List.mem_append_right _ List.mem_cons_self)).not_trades
  cases heffect with
  | capture idle => exact hidle [] (List.append_nil _).symm (by simp)
  | publish store world log holds tail covered envelopes => exact hidle [] (log.trans (List.append_nil _).symm) (by simp)
  | restart out start seq r es recovers fresh =>
    refine hidle es (log_restarted recovers.commits.logs _ _) (fun ev hev => ?_)
    obtain ⟨a, -, count, proof, hd⟩ := recovers.rescues ev hev
    rw [hd]
    trivial
  | op step effect =>
    cases effect with
    | routine frame core secrets closing inflight =>
      obtain ⟨es, hcore, hroutine, -⟩ := core
      exact hidle es (log_withWorld hcore.logs) (fun ev hev => (hroutine ev hev).idle)
    | register frame config registers key ev parse absent data logs state secrets closing inflight =>
      refine hidle [ev] (log_withWorld logs) (fun e he => ?_)
      rw [List.mem_singleton.mp he, data]
      trivial
    | place frame p ev fresh used core data timestamp pending secrets closing inflight accepting unspent =>
      refine ⟨[ev], log_withWorld core.logs, ?_⟩
      intro before e after hsplit pair htrades
      obtain ⟨rfl, rfl, -⟩ : before = [] ∧ e = ev ∧ after = [] := by
        cases before with
        | nil => simpa [eq_comm] using hsplit
        | cons z before => simp at hsplit
      rcases htrades with ⟨o, ho, rfl⟩ | ⟨a, price, volume, count, ts, hd⟩ | ⟨a, bid, ask, price, size, hd, -⟩
      · rw [placed_of_data data (replayOrder_placement p.valid timestamp)] at ho
        cases Option.some.inj ho
        exact ⟨checkAccepting_ok accepting, by simp [data]⟩
      · simp [data] at hd
      · simp [data] at hd
    | round frame now auctionId batchIds fresh nodup pair result run pieces es core data pending secrets closing inflight ticking =>
      refine ⟨es, log_withWorld core.logs, ?_⟩
      intro before ev after hsplit pair' htrades
      obtain rfl := trades_round hknown.filed hfollows.same.books run data hsplit htrades
      obtain ⟨t, ht, hpair⟩ := ticking
      refine ⟨htick t ht _ hpair, fun e he => ?_⟩
      rcases mem_round data he with hd | ⟨m, -, hd⟩
      · simp [hd, executedEvent, Event.unsequenced]
      · simp [hd]
    | folds frame p queue root round toSubmit counted ev core data state secrets closing inflight =>
      refine hidle [ev] (log_withWorld core.logs) (fun e he => ?_)
      rw [List.mem_singleton.mp he, data]
      trivial
    | submit frame p rows proof ev submits resolved core data pending secrets closing inflight =>
      refine hidle [ev] (log_withWorld core.logs) (fun e he => ?_)
      rw [List.mem_singleton.mp he, data]
      trivial
    | opens frame b ev closes logs state secrets closing inflight =>
      refine hidle [ev] (log_withWorld logs) (fun e he => ?_)
      rw [List.mem_singleton.mp he]
      rcases closes with ⟨tx, hd⟩ | ⟨block, tx, hd⟩ <;> rw [hd] <;> trivial
    | closes frame b ev store state secrets closing inflight =>
      refine hidle [] ?_ (by simp)
      rw [List.append_nil, System.log, World.log, withWorld, store]
      rfl

/-- A pair that the log has ended is delisted in the engine. -/
theorem Follows.delisted (h : Follows KeepsDelisted σ) (hended : (projectLog env σ.log).Ended pair) :
    σ.world.state.HasStatus pair .delisted := by
  obtain ⟨c', hc', hs⟩ := hended.delisted
  obtain ⟨c, hc, hkeeps⟩ := h.same.registry.flip.exists_of_lookup hc'
  exact ⟨c, hc, hkeeps hs⟩

/-- Every pair that the log delists is ended from that event on. -/
theorem Effect.ended (heffect : σ.Effect m σ') (hfollows : Follows KeepsDelisted σ) (hknown : Known σ)
    (hended : ∀ pair, (∃ e ∈ σ.log, e.data = .pairDelisted pair) → (projectLog env σ.log).Ended pair)
    (hpair : ∃ e ∈ σ'.log, e.data = .pairDelisted pair) : (projectLog env σ'.log).Ended pair := by
  -- What a move logs besides the delisting spares a pair that is delisted.
  have hspare : ∀ es, σ'.log = σ.log ++ es → (∀ ev ∈ es, ev.data ≠ .pairDelisted pair) →
      (σ.world.state.HasStatus pair .delisted → ∀ ev ∈ es, ev.Spares env pair) → (projectLog env σ'.log).Ended pair := by
    intro es hlog hnot hes
    obtain ⟨e, he, hd⟩ := hpair
    rw [hlog] at he
    rcases List.mem_append.mp he with he | he
    · have hold := hended pair ⟨e, he, hd⟩
      rw [hlog, projectLog_append]
      exact hold.applyAll (hes (hfollows.delisted hold))
    · exact absurd hd (hnot e he)
  have hleave : ∀ es, σ'.log = σ.log ++ es → (∀ ev ∈ es, ev.data.LeavesPairs) → (projectLog env σ'.log).Ended pair :=
    fun es hlog hes => hspare es hlog (fun ev hev => (@EventData.LeavesPairs.spares env ev (hes ev hev) pair).2)
      (fun _ ev hev => ((hes ev hev).spares pair).1)
  cases heffect with
  | capture idle => exact hleave [] (List.append_nil _).symm (by simp)
  | publish store world log holds tail covered envelopes => exact hleave [] (log.trans (List.append_nil _).symm) (by simp)
  | restart out start seq r es recovers fresh =>
    refine hleave es (log_restarted recovers.commits.logs _ _) (fun ev hev => ?_)
    obtain ⟨a, -, count, proof, hd⟩ := recovers.rescues ev hev
    rw [hd]
    trivial
  | op step effect =>
    cases effect with
    | routine frame core secrets closing inflight =>
      obtain ⟨es, hcore, hroutine, -, hmoves⟩ := core
      have hlog := log_withWorld hcore.logs
      by_cases hnew : ∃ e ∈ es, e.data = .pairDelisted pair
      · obtain ⟨e, he, hd⟩ := hnew
        have hmove := hmoves e he
        rw [hd] at hmove
        obtain ⟨hparse, hsome, hids, honly⟩ := hmove
        rw [hlog, projectLog_append]
        refine ended_of_winds hknown.filed.wf (canonicaliseReplayedPair_parse hparse) ?_ ?_ honly ⟨e, he, hd⟩
        · rw [← hfollows.same.registry.isSome]
          exact hsome
        · rw [← hfollows.same.books]
          exact hids
      · refine hspare es hlog (fun ev hev hd => hnew ⟨ev, hev, hd⟩) (fun hdelisted ev hev => ?_)
        have hmove := hmoves ev hev
        have hkind := hroutine ev hev
        cases hd : ev.data with
        | pairSuspended key =>
          rw [hd] at hmove
          refine ⟨fun o ho => ?_, by simp [hd], fun key' hkey' => ?_⟩
          · rw [placed_eq_none (by simp [hd])] at ho
            simp at ho
          · rw [hd, EventData.pairSuspended.injEq] at hkey'
            rw [← hkey', canonicaliseReplayedPair_parse hmove.1]
            rintro rfl
            exact absurd (EngineState.HasStatus.unique hmove.2.1 hdelisted) (by simp)
        | pairDelisted key =>
          refine ⟨fun o ho => ?_, by simp [hd], by simp [hd]⟩
          rw [placed_eq_none (by simp [hd])] at ho
          simp at ho
        | orderCancelled id reason => exact (EventData.LeavesPairs.spares (by rw [hd]; trivial) pair).1
        | orderExpired id => exact (EventData.LeavesPairs.spares (by rw [hd]; trivial) pair).1
        | _ =>
          rw [hd] at hkind
          exact hkind.elim
    | register frame config registers key ev parse absent data logs state secrets closing inflight =>
      refine hspare [ev] (log_withWorld logs) (fun e he => ?_) (fun hdelisted e he => ?_)
      · rw [List.mem_singleton.mp he, data]
        simp [registeredData]
      · rw [List.mem_singleton.mp he]
        refine ⟨fun o ho => ?_, fun key' base quote min tick ms bd qd hd => ?_, by simp [data, registeredData]⟩
        · rw [placed_eq_none (by simp [data, registeredData])] at ho
          simp at ho
        · rw [data, registeredData, EventData.pairRegistered.injEq] at hd
          rw [← hd.1, canonicaliseReplayedPair_parse parse]
          rintro rfl
          obtain ⟨c, hc, -⟩ := hdelisted
          rw [absent] at hc
          simp at hc
    | place frame p ev fresh used core data timestamp pending secrets closing inflight accepting unspent =>
      refine hspare [ev] (log_withWorld core.logs) (fun e he => ?_) (fun hdelisted e he => ?_)
      · rw [List.mem_singleton.mp he, data]
        simp
      · rw [List.mem_singleton.mp he]
        refine ⟨fun o ho => ?_, by simp [data], by simp [data]⟩
        rw [placed_of_data data (replayOrder_placement p.valid timestamp)] at ho
        cases Option.some.inj ho
        rintro rfl
        exact absurd ((checkAccepting_ok accepting).unique hdelisted) (by simp)
    | round frame now auctionId batchIds fresh nodup pair' result run pieces es core data pending secrets closing inflight ticking =>
      refine hleave es (log_withWorld core.logs) (fun e he => ?_)
      rcases mem_round data he with hd | ⟨m, -, hd⟩
      · rw [hd]
        trivial
      · rw [hd]
        trivial
    | folds frame p queue root round toSubmit counted ev core data state secrets closing inflight =>
      refine hleave [ev] (log_withWorld core.logs) (fun e he => ?_)
      rw [List.mem_singleton.mp he, data]
      trivial
    | submit frame p rows proof ev submits resolved core data pending secrets closing inflight =>
      refine hleave [ev] (log_withWorld core.logs) (fun e he => ?_)
      rw [List.mem_singleton.mp he, data]
      trivial
    | opens frame b ev closes logs state secrets closing inflight =>
      refine hleave [ev] (log_withWorld logs) (fun e he => ?_)
      rw [List.mem_singleton.mp he]
      rcases closes with ⟨tx, hd⟩ | ⟨block, tx, hd⟩ <;> rw [hd] <;> trivial
    | closes frame b ev store state secrets closing inflight =>
      refine hleave [] ?_ (by simp)
      rw [List.append_nil, System.log, World.log, withWorld, store]
      rfl

theorem Effect.ticking (heffect : σ.Effect m σ') (h : σ.world.Ticking) : σ'.world.Ticking := by
  cases heffect with
  | op step effect => exact World.Ticking.step h step
  | capture idle => exact h
  | publish store world log holds tail covered envelopes =>
    rw [world]
    exact h
  | restart out start seq r es recovers fresh =>
    intro t ht
    simp [withWorld, World.restarted, World.initial] at ht

/-- A trade in a pair comes before every event that delists it. -/
def TradesFirst (env : Env) (log : List Event) : Prop :=
  log.EachAfter (fun before ev => ∀ pair, Trades env pair before ev → ∀ e ∈ before, e.data ≠ .pairDelisted pair)

/-- The life of the pairs, as the log, the registry and the book tell it. -/
structure Lifecycle (σ : System env) : Prop extends Follows KeepsDelisted σ, Known σ where
  ticking : σ.world.Ticking
  ended : ∀ pair, (∃ e ∈ σ.log, e.data = .pairDelisted pair) → (projectLog env σ.log).Ended pair
  first : TradesFirst env σ.log

theorem lifecycle_initial (env : Env) : Lifecycle (initial env) where
  toFollows := follows_initial registryRel_keepsDelisted env
  toKnown := known_initial env
  ticking := by simp [World.Ticking, initial, World.initial]
  ended := by simp [initial, log, World.log, World.initial, Store.empty]
  first := List.eachAfter_nil

theorem Lifecycle.step (h : Lifecycle σ) (hstep : σ.step m = some σ') : Lifecycle σ' := by
  have heffect := step_effect h.toKept hstep
  refine ⟨heffect.follows registryRel_keepsDelisted h.toFollows (fun c _ => keepsDelisted_logged c),
    heffect.known h.toKnown, heffect.ticking h.ticking, fun pair hpair => heffect.ended h.toFollows h.toKnown h.ended hpair, ?_⟩
  obtain ⟨es, hlog, hes⟩ := heffect.trades h.toFollows h.toKnown h.ticking
  rw [TradesFirst, hlog]
  refine h.first.append (fun before ev after hsplit pair htrades e he hd => ?_)
  obtain ⟨hactive, hnot⟩ := hes before ev after hsplit pair htrades
  rcases List.mem_append.mp he with he | he
  · have hdelisted := h.toFollows.delisted (h.ended pair ⟨e, he, hd⟩)
    exact absurd (hactive.unique hdelisted) (by simp)
  · exact hnot e (hsplit ▸ List.mem_append_left _ he) hd

/-- However calls and restarts interleave: after `PairDelisted` the log has no further trade in the pair,
the pair is delisted and no order of it rests; and while a pair is not active, no move trades in it. -/
theorem run_delisted {moves : List Move} (hrun : Transition.run System.step (initial env) moves = some σ) :
    (∀ before ev after, σ.log = before ++ ev :: after → ∀ pair, Trades env pair before ev →
      ∀ e ∈ before, e.data ≠ .pairDelisted pair) ∧
    (∀ pair, (∃ e ∈ σ.log, e.data = .pairDelisted pair) →
      σ.world.state.HasStatus pair .delisted ∧ ∀ o ∈ σ.world.state.book.iterAll, o.pair ≠ pair) ∧
    ∀ pair, ¬ σ.world.state.HasStatus pair .active → ∀ m σ', σ.step m = some σ' →
      ∃ es, σ'.log = σ.log ++ es ∧
        ∀ before ev after, es = before ++ ev :: after → ¬ Trades env pair (σ.log ++ before) ev := by
  have h : Lifecycle σ := Transition.run_preserves (fun _ _ _ hs hstep => hs.step hstep) (lifecycle_initial env) hrun
  refine ⟨h.first, fun pair hpair => ?_, fun pair hidle m σ' hstep => ?_⟩
  · have hended := h.ended pair hpair
    refine ⟨h.toFollows.delisted hended, (allOrders_iff σ.world.state.book).mp ?_⟩
    have hbooks : σ.world.state.book.books = (projectLog env σ.log).books := h.same.books
    exact hbooks ▸ hended.cleared
  · obtain ⟨es, hlog, hes⟩ := (step_effect h.toKept hstep).trades h.toFollows h.toKnown h.ticking
    exact ⟨es, hlog, fun before ev after hsplit htrades => hidle (hes before ev after hsplit pair htrades).1⟩

end System

namespace Scenario

/-- The pair is delisted with both of its orders open, and the engine restarts. -/
def delisting : List Move :=
  placing.map .op ++ [.op (.delistPair "ETH-USDC" [11, 12] now 0 true), .restart (fun _ => true) choice]

end Scenario

open Scenario in
theorem run_delisted_restarted :
    ∃ σ, Transition.run System.step (System.initial Scenario.env) delisting = some σ ∧
      σ.world.state.HasStatus "ETH-USDC" .delisted ∧ ∀ o ∈ σ.world.state.book.iterAll, o.pair ≠ "ETH-USDC" := by
  have hrun : (Transition.run System.step (System.initial Scenario.env) delisting).any (fun σ =>
      σ.log.any (fun e => e.data = .pairDelisted "ETH-USDC")) = true := by decide +kernel
  obtain ⟨σ, hσ, hlog⟩ := (Option.any_eq_true _ _).mp hrun
  obtain ⟨e, he, hd⟩ := List.any_eq_true.mp hlog
  exact ⟨σ, hσ, (System.run_delisted hσ).2.1 "ETH-USDC" ⟨e, he, of_decide_eq_true hd⟩⟩

end DarkPool
