import DarkPool.Converge
import DarkPool.Delisted
import DarkPool.Uncrossed

namespace DarkPool

theorem EventData.Idle.fills {data : EventData} (h : data.Idle) : data.fills = [] := by
  cases data with
  | orderMatched => exact h.elim
  | _ => rfl

section Placed

variable {env : Env} {ev : Event} {log : List Event}

theorem replayOrder_expiry {id : Uuid} {c ct : Bytes} {o : ReplayedOrder} (h : replayOrder env ev id c ct = .ok o) :
    0 < o.order.expiresAt := by
  unfold replayOrder at h
  split at h
  next => simp at h
  next d hd =>
    simp only [bind_eq_ok] at h
    obtain ⟨salt, -, recomputed, -, commitment, -, saltFr, -, h⟩ := h
    split at h
    next => simp at h
    next =>
      simp only [bind_eq_ok] at h
      obtain ⟨nonce, -, expiresAt, hexpiry, pairKey, -, h⟩ := h
      cases Except.ok.inj h
      unfold orderExpiryFromUnixNanos at hexpiry
      split at hexpiry
      next => simp at hexpiry
      next hpos =>
        cases Except.ok.inj hexpiry
        exact not_le.mp hpos

/-- No order is placed without an expiry. -/
theorem directory_expiry {id : Uuid} {o : Order} (h : (directory env log).lookup id = some o) : 0 < o.expiresAt := by
  obtain ⟨ev, -, placed, hplaced, -, rfl⟩ := directory_lookup h
  obtain ⟨id', c, proof, ct, -, hread⟩ := placed_eq_some hplaced
  exact replayOrder_expiry hread

theorem Filed.expiry (h : Filed env log) : AllOrders (fun o => 0 < o.expiresAt) (projectLog env log).books := by
  intro book hbook side o ho
  obtain ⟨placed, hlookup, heq⟩ := h.listed book hbook side o ho
  have hpos := directory_expiry hlookup
  rw [heq]
  exact hpos

end Placed

namespace OrderBook

variable {inner : OrderBook} {n : Nat} {es : List Event}

/-- What rests after expiry events was there before, and none of them names it. -/
theorem findOrder_expired (hwf : inner.WF) (hseq : inner.seq ≤ n) (hnum : Numbered n es)
    (hes : ∀ ev ∈ es, ∃ id, ev.data = .orderExpired id) {id : Uuid} {o : Order}
    (h : (inner.applyAll es).findOrder id = some o) :
    inner.findOrder id = some o ∧ ∀ ev ∈ es, ev.data ≠ .orderExpired id := by
  induction es generalizing inner n with
  | nil => exact ⟨h, by simp⟩
  | cons ev es ih =>
    obtain ⟨hev, hrest⟩ := numbered_cons.mp hnum
    obtain ⟨id', hd⟩ := hes ev List.mem_cons_self
    have hlt : inner.seq < ev.seq := by omega
    have happly : inner.apply ev = (inner.withSeq (max inner.seq ev.seq)).removeOrder id' := by
      rw [OrderBook.apply, if_neg (by omega), hd]
      rfl
    have hwf' := wf_withSeq hwf (max inner.seq ev.seq)
    have hseq' : (inner.apply ev).seq ≤ n + 1 := by rw [OrderBook.seq_apply hlt, hev]
    obtain ⟨hfind, hnone⟩ := ih (happly ▸ wf_removeOrder hwf' id') hseq' hrest
      (fun e he => hes e (List.mem_cons_of_mem ev he)) h
    rw [happly, findOrder_removeOrder hwf'] at hfind
    by_cases heq : id = id'
    · rw [if_pos heq] at hfind
      simp at hfind
    · rw [if_neg heq] at hfind
      refine ⟨hfind, fun e he hdata => ?_⟩
      rcases List.mem_cons.mp he with rfl | he
      · rw [hd, EventData.orderExpired.injEq] at hdata
        exact heq hdata.symm
      · exact hnone e he hdata

theorem mem_collectExpired {now : DateTime} {o : Order} (ho : o ∈ inner.iterAll) (hset : 0 < o.expiresAt)
    (hexpired : o.expiresAt ≤ now) : Event.unsequenced 0 (.orderExpired o.id) ∈ inner.collectExpired now := by
  refine List.mem_map.mpr ⟨o, List.mem_filter.mpr ⟨ho, ?_⟩, rfl⟩
  exact decide_eq_true ⟨hset.ne', hexpired⟩

theorem mem_iterAll_of_findOrder {id : Uuid} {o : Order} (h : inner.findOrder id = some o) : o ∈ inner.iterAll := by
  have hall := (allOrders_iff inner).mpr (fun o ho => ho)
  obtain ⟨r, hr, rfl⟩ := Option.map_eq_some_iff.mp h
  exact (all_locate hall hr).2

end OrderBook

/-- The sweep that opens a tick is stored, or it finds nothing. -/
def EngineState.Sweeps (st : EngineState) (now : DateTime) (ok : Bool) : Prop :=
  ok = true ∨ st.book.collectExpired now = []

/-- A sweep that is stored leaves no expired order. -/
theorem expireOrders_unexpired {st : EngineState} {store : Store} {now clock : DateTime} {ok : Bool} {expired : List Event}
    (hwf : st.book.WF) (hseq : st.book.seq ≤ store.seq) (hset : AllOrders (fun o => 0 < o.expiresAt) st.book.books)
    (hperm : expired.Perm (st.book.collectExpired now)) (hsweep : st.Sweeps now ok) :
    AllOrders (fun o => now < o.expiresAt) (expireOrders st store now clock ok expired).1.book.books := by
  have hall := (allOrders_iff st.book).mp hset
  unfold expireOrders
  split
  next hempty =>
    have hnil : st.book.collectExpired now = [] := by
      rw [List.isEmpty_iff.mp hempty] at hperm
      exact List.nil_perm.mp hperm
    refine (allOrders_iff st.book).mpr (fun o ho => ?_)
    by_contra hexpired
    have hmem := OrderBook.mem_collectExpired ho (hall o ho) (not_lt.mp hexpired)
    rw [hnil] at hmem
    simp at hmem
  next hsome =>
    have hok : ok = true := by
      refine hsweep.resolve_right (fun hnil => hsome ?_)
      rw [hnil] at hperm
      rw [List.perm_nil.mp hperm]
      rfl
    split
    next e he => simp [appendEvents, Store.append, hok] at he
    next store1 stamped ha =>
      obtain ⟨-, hstamped, -⟩ := appendEvents_eq_ok.mp ha
      have hdata := Store.data_stamp clock store.seq (expired.map (fun e => { e with timestamp := now }))
      rw [← hstamped, List.map_map] at hdata
      have hnum : Numbered store.seq stamped := hstamped ▸ Store.numbered_stamp clock store.seq _
      have hkind : ∀ ev ∈ stamped, ∃ id, ev.data = .orderExpired id := by
        intro ev hev
        have hmem : ev.data ∈ stamped.map Event.data := List.mem_map_of_mem hev
        rw [hdata] at hmem
        obtain ⟨e, he, heq⟩ := List.mem_map.mp hmem
        obtain ⟨o, -, rfl⟩ := List.mem_map.mp (hperm.mem_iff.mp he)
        exact ⟨o.id, heq.symm⟩
      have hwf' : (st.book.applyAll stamped).WF := OrderBook.wf_applyAll hwf stamped
      refine OrderBook.allOrders_of_findOrder hwf' (fun o ho => ?_)
      obtain ⟨hfind, hnone⟩ := OrderBook.findOrder_expired hwf hseq hnum hkind ho
      have hrests : o ∈ st.book.iterAll := OrderBook.mem_iterAll_of_findOrder hfind
      by_contra hexpired
      have hcollected := OrderBook.mem_collectExpired hrests (hall o hrests) (not_lt.mp hexpired)
      have hmem : EventData.orderExpired o.id ∈ stamped.map Event.data := by
        rw [hdata]
        exact List.mem_map.mpr ⟨_, hperm.mem_iff.mpr hcollected, rfl⟩
      obtain ⟨ev, hev, heq⟩ := List.mem_map.mp hmem
      exact hnone ev hev heq

def Action.StartsTick : Action → Prop
  | .tickStart _ _ _ _ => True
  | _ => False

namespace World

variable {env : Env} {w w' : World env} {a : Action} {now : DateTime}

/-- The tick that holds the lock has opened at `now`, and no resting order has expired by then. -/
def Swept (now : DateTime) (w : World env) : Prop :=
  ∀ t, w.tick = some t → t.now.val = now ∧ AllOrders (fun o => now < o.expiresAt) w.state.book.books

theorem Swept.keep (h : Swept now w) (htick : w'.tick = w.tick) (hstate : w'.state = w.state) : Swept now w' := by
  intro t ht
  rw [hstate]
  exact h t (htick ▸ ht)

theorem swept_of_idle (h : w.tick = none) : Swept now w := by
  intro t ht
  rw [h] at ht
  simp at ht

/-- A tick starts when the state lock is free. -/
theorem tickStart_locked {start : Now} {clock : DateTime} {ok : Bool} {expired : List Event}
    (h : w.step (.tickStart start clock ok expired) = some w') :
    w.tick = none ∧ w.stepLocked (.tickStart start clock ok expired) = some w' := by
  cases ht : w.tick with
  | some t => simp [World.step, Action.task, stepFree, ht, stepTick] at h
  | none => exact ⟨rfl, by simpa [World.step, Action.task, stepFree, ht] using h⟩

theorem tickStart_swept {start : Now} {clock : DateTime} {ok : Bool} {expired : List Event} (hok : w.Ok)
    (hwf : w.state.book.WF) (hset : AllOrders (fun o => 0 < o.expiresAt) w.state.book.books)
    (hsweep : w.state.Sweeps start ok) (hstep : w.step (.tickStart start clock ok expired) = some w') :
    Swept start w' := by
  have h := (tickStart_locked hstep).2
  simp only [stepLocked] at h
  split at h
  next hperm =>
    cases Option.some.inj h
    intro t ht
    cases Option.some.inj ht
    exact ⟨rfl, expireOrders_unexpired hwf hok.book hset hperm hsweep⟩
  next => simp at h

/-- The fills of a round touch no expiry. -/
theorem recordRound_unexpired (env : Env) {st st' : EngineState} {store store' : Store} {at_ clock : DateTime} {ok : Bool}
    {result : AuctionResult} {batchIds : List Uuid} {pending : List PendingAggregation} (hbook : st.book.seq ≤ store.seq)
    (h : recordRound st store at_ clock ok result batchIds = some (st', store', pending))
    (hall : AllOrders (fun o => now < o.expiresAt) st.book.books) :
    AllOrders (fun o => now < o.expiresAt) st'.book.books := by
  obtain ⟨es, hcore, hdata, -⟩ : ∃ es, Commits env st store st' store' es ∧ _ := recordRound_commits hbook h
  have hbooks : st'.book.books = (st.projection.applyAll env es).books := congrArg Projection.books hcore.projection
  rw [hbooks]
  refine allOrders_applyAll hall (fun ev _ fill _ o ho _ => ho) ?_
  intro ev hev id c proof ct hd
  rcases mem_round hdata hev with hd' | ⟨m, -, hd'⟩
  · simp [hd, executedEvent, Event.unsequenced] at hd'
  · simp [hd] at hd'

theorem stepTick_swept (hok : w.Ok) (h : Swept now w) {t : TickUnderLock} (ht : w.tick = some t)
    (hstep : w.stepTick t a = some w') : Swept now w' := by
  obtain ⟨hnow, hall⟩ := h t ht
  cases a with
  | tickPair auctionId batchIds clock ok =>
    simp only [stepTick] at hstep
    split at hstep
    next => simp at hstep
    next pair pairs hpairs =>
      split at hstep
      next =>
        split at hstep
        next =>
          cases Option.some.inj hstep
          exact fun t' ht' => Option.some.inj ht' ▸ ⟨hnow, hall⟩
        next =>
          split at hstep
          next =>
            split at hstep
            next =>
              cases Option.some.inj hstep
              exact fun t' ht' => Option.some.inj ht' ▸ ⟨hnow, hall⟩
            next hround =>
              cases Option.some.inj hstep
              have hall' := recordRound_unexpired env hok.book hround hall
              exact fun t' ht' => Option.some.inj ht' ▸ ⟨hnow, hall'⟩
          next => simp at hstep
      next => simp at hstep
  | tickEnd =>
    simp only [stepTick] at hstep
    split at hstep
    next =>
      cases Option.some.inj hstep
      exact swept_of_idle rfl
    next => simp at hstep
  | _ => simp [stepTick] at hstep

/-- Only its opening starts a tick. -/
theorem stepLocked_keeps_tick (ha : ¬ a.StartsTick) (h : w.stepLocked a = some w') : w'.tick = w.tick := by
  unfold stepLocked at h
  split at h
  case h_1 | h_2 =>
    cases Option.some.inj h
    exact lockedCall_tick _
  case h_6 => exact absurd trivial ha
  all_goals
    repeat' split at h
    all_goals first | cases Option.some.inj h; rfl | simp at h

/-- A tick that has swept the book keeps it so until it ends. -/
theorem Swept.step (h : Swept now w) (hok : w.Ok) (ha : ¬ a.StartsTick) (hstep : w.step a = some w') : Swept now w' := by
  unfold World.step at hstep
  split at hstep
  next i hi =>
    split at hstep
    next => simp at hstep
    next task htask =>
      split at hstep
      next w1 hfree =>
        cases Option.some.inj hstep
        obtain ⟨htick, hstate⟩ := stepTaskFree_locked hfree
        exact h.keep htick hstate
      next =>
        split at hstep
        next hidle =>
          have htick := stepTaskLocked_tick hstep
          exact swept_of_idle (htick.trans (Option.isNone_iff_eq_none.mp hidle))
        next => simp at hstep
  next =>
    split at hstep
    next w1 hfree =>
      cases Option.some.inj hstep
      obtain ⟨htick, hstate⟩ := stepFree_locked hfree
      exact h.keep htick hstate
    next =>
      split at hstep
      next t ht => exact stepTick_swept hok h ht hstep
      next ht => exact swept_of_idle ((stepLocked_keeps_tick ha hstep).trans ht)

end World

namespace System

variable {env : Env} {σ σ' : System env} {m : Move} {now : DateTime}

theorem Recorded.step (h : Recorded σ) (hstep : σ.step m = some σ') : Recorded σ' :=
  (step_effect h.toKept hstep).recorded h

theorem Effect.swept (heffect : σ.Effect m σ') (hkept : Kept σ) (h : σ.world.Swept now)
    (hm : ∀ a, m = .op a → ¬ a.StartsTick) : σ'.world.Swept now := by
  cases heffect with
  | op step effect => exact h.step hkept.logged.ok (hm _ rfl) step
  | capture idle => exact h
  | publish store world log holds tail covered envelopes =>
    rw [world]
    exact h.keep rfl rfl
  | restart out start seq r es recovers fresh => exact World.swept_of_idle rfl

/-- Only a round of a tick logs fills. -/
theorem Effect.fills (heffect : σ.Effect m σ') :
    ∃ es, σ'.log = σ.log ++ es ∧ ((∀ ev ∈ es, ev.data.fills = []) ∨
      ∃ start pair auctionId result, tickRound σ.world.state pair auctionId = some result ∧
        es.map Event.data = (auctionEvents start result).map Event.data ∧ ∃ t, σ.world.tick = some t) := by
  cases heffect with
  | capture idle => exact ⟨[], (List.append_nil _).symm, Or.inl (by simp)⟩
  | publish store world log holds tail covered envelopes =>
    exact ⟨[], log.trans (List.append_nil _).symm, Or.inl (by simp)⟩
  | restart out start seq r es recovers fresh =>
    refine ⟨es, log_restarted recovers.commits.logs _ _, Or.inl (fun ev hev => ?_)⟩
    obtain ⟨a, -, count, proof, hd⟩ := recovers.rescues ev hev
    rw [hd]
    rfl
  | op step effect =>
    cases effect with
    | routine frame core secrets closing inflight =>
      obtain ⟨es, hcore, hroutine, -⟩ := core
      exact ⟨es, log_withWorld hcore.logs, Or.inl (fun ev hev => (hroutine ev hev).idle.fills)⟩
    | register frame config registers key ev parse absent data logs state secrets closing inflight =>
      exact ⟨[ev], log_withWorld logs, Or.inl (by simp [data, registeredData, EventData.fills])⟩
    | place frame p ev fresh used core data timestamp pending secrets closing inflight accepting unspent =>
      exact ⟨[ev], log_withWorld core.logs, Or.inl (by simp [data, EventData.fills])⟩
    | round frame start auctionId batchIds fresh nodup pair result run pieces es core data pending secrets closing inflight ticking =>
      obtain ⟨t, ht, -⟩ := ticking
      exact ⟨es, log_withWorld core.logs, Or.inr ⟨start, pair, auctionId, result, run, data, t, ht⟩⟩
    | folds frame p queue root round toSubmit counted ev core data state secrets closing inflight =>
      exact ⟨[ev], log_withWorld core.logs, Or.inl (by simp [data, EventData.fills])⟩
    | submit frame p rows proof ev submits resolved core data pending secrets closing inflight =>
      exact ⟨[ev], log_withWorld core.logs, Or.inl (by simp [data, EventData.fills])⟩
    | opens frame b ev closes logs state secrets closing inflight =>
      refine ⟨[ev], log_withWorld logs, Or.inl (fun e he => ?_)⟩
      rw [List.mem_singleton.mp he]
      rcases closes with ⟨tx, hd⟩ | ⟨block, tx, hd⟩ <;> rw [hd] <;> rfl
    | closes frame b ev store state secrets closing inflight =>
      refine ⟨[], ?_, Or.inl (by simp)⟩
      rw [List.append_nil, System.log, World.log, withWorld, store]
      rfl

/-- The orders that a round of a swept book fills have not expired. -/
theorem Recorded.round_unexpired (h : Recorded σ) (hall : AllOrders (fun o => now < o.expiresAt) σ.world.state.book.books)
    {pair : String} {auctionId : Uuid} {result : AuctionResult} {start : DateTime} {es : List Event}
    (hrun : tickRound σ.world.state pair auctionId = some result)
    (hes : es.map Event.data = (auctionEvents start result).map Event.data) {ev : Event} (hev : ev ∈ es) {fill : Fill}
    (hfill : fill ∈ ev.data.fills) :
    ∃ o, (directory env σ.log).lookup fill.orderId = some o ∧ now < o.expiresAt := by
  have hwf : σ.world.state.book.WF := h.filed.book_wf h.books
  have hrests : ∀ o, σ.world.state.book.findOrder o.id = some o →
      ∃ placed, (directory env σ.log).lookup o.id = some placed ∧ now < placed.expiresAt := by
    intro o hfind
    have hmem := OrderBook.mem_iterAll_of_findOrder hfind
    have hunexpired := (allOrders_iff _).mp hall o hmem
    obtain ⟨placed, hlookup, heq⟩ := (allOrders_iff σ.world.state.book).mp (h.books ▸ h.filed.listed) o hmem
    rw [heq] at hunexpired
    exact ⟨placed, hlookup, hunexpired⟩
  rcases mem_round hes hev with hd | ⟨m, hm, hd⟩
  · rw [hd] at hfill
    simp [executedEvent, Event.unsequenced, EventData.fills] at hfill
  · obtain ⟨b, hb, a, ha, -, -, -, -, -, -, heq⟩ := runAuction_match (tickRound_eq_some.mp hrun).1 hm
    rw [hd, heq] at hfill
    simp only [EventData.fills, List.mem_cons, List.not_mem_nil, or_false] at hfill
    rcases hfill with rfl | rfl
    · exact hrests b ((OrderBook.mem_bids hwf).mp hb).1
    · exact hrests a ((OrderBook.mem_asks hwf).mp ha).1

/-- From here on, the log only fills orders that expire after `now`. -/
structure FillsUnexpired (now : DateTime) (log : List Event) (σ : System env) : Prop extends Recorded σ where
  swept : σ.world.Swept now
  fills : ∃ es, σ.log = log ++ es ∧ ∀ ev ∈ es, ∀ fill ∈ ev.data.fills,
    ∃ o, (directory env σ.log).lookup fill.orderId = some o ∧ now < o.expiresAt

theorem FillsUnexpired.step {log : List Event} (h : FillsUnexpired now log σ) (hm : ∀ a, m = .op a → ¬ a.StartsTick)
    (hstep : σ.step m = some σ') : FillsUnexpired now log σ' := by
  have heffect := step_effect h.toKept hstep
  have hrecorded := h.toRecorded.step hstep
  obtain ⟨es, hlog, hes⟩ := h.fills
  obtain ⟨es', hlog', hes'⟩ := heffect.fills
  have hkeeps : ∀ fill : Fill, (∃ o, (directory env σ.log).lookup fill.orderId = some o ∧ now < o.expiresAt) →
      ∃ o, (directory env σ'.log).lookup fill.orderId = some o ∧ now < o.expiresAt := by
    rintro fill ⟨o, hlookup, hexpiry⟩
    have hfiled := hrecorded.filed
    rw [hlog'] at hfiled ⊢
    exact ⟨o, hfiled.directory_append hlookup, hexpiry⟩
  refine ⟨hrecorded, heffect.swept h.toKept h.swept hm, es ++ es', by rw [hlog', hlog, List.append_assoc], ?_⟩
  intro ev hev fill hfill
  refine hkeeps fill ?_
  rcases List.mem_append.mp hev with hev | hev
  · exact hes ev hev fill hfill
  · rcases hes' with hnone | ⟨start, pair, auctionId, result, hrun, hdata, t, ht⟩
    · rw [hnone ev hev] at hfill
      simp at hfill
    · exact h.toRecorded.round_unexpired (h.swept t ht).2 hrun hdata hev hfill

end System

/-- Whatever the engine did before: a tick whose sweep is stored, or finds nothing, only fills orders that
expire after the tick's time, whichever of its other appends go through. -/
theorem tick_fills_unexpired {env : Env} {before during : List Move} {σ σ' : System env} {now : Now} {clock : DateTime}
    {ok : Bool} {expired : List Event} (hbefore : Transition.run System.step (System.initial env) before = some σ)
    (hsweep : σ.world.state.Sweeps now ok)
    (hduring : ∀ m ∈ during, ∀ a, m = .op a → ¬ a.StartsTick)
    (htick : Transition.run System.step σ (.op (.tickStart now clock ok expired) :: during) = some σ') :
    ∃ es, σ'.log = σ.log ++ es ∧ ∀ ev ∈ es, ∀ fill ∈ ev.data.fills,
      ∃ o, (directory env σ'.log).lookup fill.orderId = some o ∧ now.val < o.expiresAt := by
  have hrecorded : System.Recorded σ :=
    Transition.run_preserves (fun _ _ _ hs hstep => hs.step hstep) (System.recorded_initial env) hbefore
  obtain ⟨σ₁, hopen, hrest⟩ := Transition.run_cons.mp htick
  obtain ⟨w', hw', heq⟩ := Option.map_eq_some_iff.mp hopen
  have hfirst : System.FillsUnexpired now.val σ.log σ₁ := by
    refine ⟨hrecorded.step hopen, ?_, ?_⟩
    · have hbooks := hrecorded.books
      rw [← heq]
      exact World.tickStart_swept hrecorded.logged.ok (hrecorded.filed.book_wf hbooks) (hbooks ▸ hrecorded.filed.expiry)
        hsweep hw'
    · obtain ⟨es, hlog, hes⟩ := (System.step_effect hrecorded.toKept hopen).fills
      refine ⟨es, hlog, fun ev hev fill hfill => ?_⟩
      rcases hes with hnone | ⟨start, pair, auctionId, result, -, -, t, ht⟩
      · rw [hnone ev hev] at hfill
        simp at hfill
      · rw [(World.tickStart_locked hw').1] at ht
        simp at ht
  exact (Transition.run_invariant (fun _ _ _ hs hm hstep => hs.step hm hstep) hfirst (Transition.meets_of_mem hduring)
    hrest).fills

namespace Scenario

/-- The time at which the orders expire. -/
def expiry : Now := ⟨1000, by decide⟩

/-- A tick at the expiry, whose sweep may fail to be stored. -/
def lateTick (ok : Bool) : List Action :=
  [.tickStart expiry 0 ok [.unsequenced 0 (.orderExpired 11), .unsequenced 0 (.orderExpired 12)], .tickPair 21 [31] 0 true]

end Scenario

open Scenario in
/-- The sweep is not stored, and the round fills both orders at the time they have expired. -/
theorem tick_fills_expired :
    ∃ σ σ', Transition.run System.step (System.initial Scenario.env) (placing.map .op) = some σ ∧
      Transition.run System.step σ ((lateTick false).map .op) = some σ' ∧
      ∃ ev ∈ σ'.log, ev ∉ σ.log ∧ ∃ fill ∈ ev.data.fills,
        ∃ o, (directory Scenario.env σ'.log).lookup fill.orderId = some o ∧ o.expiresAt ≤ expiry.val := by
  have hrun : (Transition.run System.step (System.initial Scenario.env) (placing.map .op)).any (fun σ =>
      (Transition.run System.step σ ((lateTick false).map .op)).any (fun σ' =>
        σ'.log.any (fun ev => decide (ev ∉ σ.log) && ev.data.fills.any (fun fill =>
          ((directory Scenario.env σ'.log).lookup fill.orderId).any (fun o => o.expiresAt ≤ expiry.val))))) = true := by
    decide +kernel
  obtain ⟨σ, hσ, hrun⟩ := (Option.any_eq_true _ _).mp hrun
  obtain ⟨σ', hσ', hlog⟩ := (Option.any_eq_true _ _).mp hrun
  obtain ⟨ev, hev, hfills⟩ := List.any_eq_true.mp hlog
  obtain ⟨hnew, hfills⟩ := (Bool.and_eq_true _ _).mp hfills
  obtain ⟨fill, hfill, hlookup⟩ := List.any_eq_true.mp hfills
  obtain ⟨o, ho, hexpired⟩ := (Option.any_eq_true _ _).mp hlookup
  exact ⟨σ, σ', hσ, hσ', ev, hev, of_decide_eq_true hnew, fill, hfill, o, ho, of_decide_eq_true hexpired⟩

open Scenario in
theorem tick_fills_unexpired_early :
    ∃ σ σ', Transition.run System.step (System.initial Scenario.env) (placing.map .op) = some σ ∧
      Transition.run System.step σ [.op (.tickStart now 0 true []), .op (.tickPair 21 [31] 0 true)] = some σ' ∧
      ∃ es, σ'.log = σ.log ++ es ∧ ∀ ev ∈ es, ∀ fill ∈ ev.data.fills,
        ∃ o, (directory Scenario.env σ'.log).lookup fill.orderId = some o ∧ now.val < o.expiresAt := by
  have hrun : (Transition.run System.step (System.initial Scenario.env) (placing.map .op)).any (fun σ =>
      (Transition.run System.step σ [.op (.tickStart now 0 true []), .op (.tickPair 21 [31] 0 true)]).isSome) = true := by
    decide +kernel
  obtain ⟨σ, hσ, hrun⟩ := (Option.any_eq_true _ _).mp hrun
  obtain ⟨σ', hσ'⟩ := Option.isSome_iff_exists.mp hrun
  have hduring : ∀ m ∈ [Move.op (.tickPair 21 [31] 0 true)], ∀ a, m = .op a → ¬ a.StartsTick := by
    intro m hm a ha
    rw [List.mem_singleton.mp hm, Move.op.injEq] at ha
    exact ha ▸ not_false
  exact ⟨σ, σ', hσ, hσ', tick_fills_unexpired hσ (Or.inl rfl) hduring hσ'⟩

end DarkPool
