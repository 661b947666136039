import DarkPool.AuctionPriority
import DarkPool.Traced

namespace DarkPool

section Snapshot

variable {book : OrderBook} {id : Uuid} {o : Order}

theorem snapshotOrder_self (hwf : book.WF) (hfind : book.findOrder id = some o) (orders : Table Uuid Order) :
    (snapshotOrder book orders id).lookup id = some o := by
  simp only [snapshotOrder, hfind]
  rw [Table.lookup_insert_eq, if_pos (OrderBook.findOrder_id hwf hfind).symm]

theorem snapshotOrder_keeps (hwf : book.WF) (hfind : book.findOrder id = some o) {orders : Table Uuid Order}
    (h : orders.lookup id = some o) (id' : Uuid) : (snapshotOrder book orders id').lookup id = some o := by
  by_cases heq : id' = id
  · rw [heq]
    exact snapshotOrder_self hwf hfind orders
  · unfold snapshotOrder
    split
    next o' ho' =>
      rw [Table.lookup_insert_eq, if_neg, h]
      rw [OrderBook.findOrder_id hwf ho']
      exact Ne.symm heq
    next => exact h

/-- The snapshot of a round has every order of its matches as it rests in the book. -/
theorem orderSnapshot_lookup (hwf : book.WF) (hfind : book.findOrder id = some o) {ms : List Match} {m : Match}
    (hm : m ∈ ms) (hid : m.bid.orderId = id ∨ m.ask.orderId = id) : (orderSnapshot book ms).lookup id = some o := by
  unfold orderSnapshot
  -- Once an order is in, the rest of the fold keeps it.
  have hkeep : ∀ (ms : List Match) (orders : Table Uuid Order), orders.lookup id = some o → (ms.foldl (fun orders m =>
      snapshotOrder book (snapshotOrder book orders m.bid.orderId) m.ask.orderId) orders).lookup id = some o := by
    intro ms
    induction ms with
    | nil => exact fun _ h => h
    | cons m ms ih => exact fun orders h => ih _ (snapshotOrder_keeps hwf hfind (snapshotOrder_keeps hwf hfind h _) _)
  obtain ⟨before, after, rfl⟩ := List.append_of_mem hm
  rw [List.foldl_append, List.foldl_cons]
  refine hkeep after _ ?_
  rcases hid with rfl | rfl
  · exact snapshotOrder_keeps hwf hfind (snapshotOrder_self hwf hfind _) _
  · exact snapshotOrder_self hwf hfind _

end Snapshot

variable {env : Env} {log es : List Event}

section Registered

theorem isSome_orDefault (t : Table String PairConfig) (pair : String) : ((orDefault t pair).lookup pair).isSome := by
  unfold orDefault
  split
  next h => exact h
  next =>
    rw [Table.lookup_insert_eq, if_pos rfl]
    rfl

/-- No event removes a pair from the registry. -/
theorem pairTokens_apply {p : Projection} {key : String} (h : (p.pairTokens.lookup key).isSome) (ev : Event) :
    ((p.apply env ev).pairTokens.lookup key).isSome := by
  have hinsert : ∀ pair config, ((p.pairTokens.insert pair config).lookup key).isSome := by
    intro pair config
    rw [Table.lookup_insert_eq]
    split
    next => rfl
    next => exact h
  have hstatus : ∀ pair status, ((p.setStatus pair status).pairTokens.lookup key).isSome := by
    intro pair status
    rw [Projection.setStatus, Table.lookup_modify_eq]
    split
    next => simpa using h
    next => exact h
  unfold Projection.apply
  cases ev.data with
  | orderPlaced id c proof ct =>
    dsimp only
    split
    next o ho =>
      rw [Projection.place, orDefault]
      split
      next => exact h
      next => exact hinsert _ _
    next => exact h
  | pairRegistered pair base quote min tick ms bd qd => exact hinsert _ _
  | pairSuspended pair => exact hstatus _ _
  | pairDelisted pair => exact hstatus _ _
  | _ => exact h

theorem pairTokens_applyAll {p : Projection} {key : String} (h : (p.pairTokens.lookup key).isSome) (es : List Event) :
    ((p.applyAll env es).pairTokens.lookup key).isSome := by
  induction es generalizing p with
  | nil => exact h
  | cons ev es ih => exact ih (pairTokens_apply h ev)

/-- The pair of every order that was placed is registered. -/
theorem directory_registered {id : Uuid} {o : Order} (h : (directory env log).lookup id = some o) :
    ((projectLog env log).pairTokens.lookup o.pair).isSome := by
  obtain ⟨ev, hev, placed, hplaced, -, rfl⟩ := directory_lookup h
  obtain ⟨before, after, rfl⟩ := List.append_of_mem hev
  rw [projectLog_append]
  refine pairTokens_applyAll ?_ after
  rw [books_apply_placed hplaced]
  exact isSome_orDefault _ _

end Registered

/-- The order is in the chunk, as the placement of its id placed it but for what has been filled. -/
structure Leg (env : Env) (log : List Event) (p : PendingAggregation) (id : Uuid) (side : Side) (o : Order) : Prop where
  found : p.orders.lookup id = some o
  id : o.id = id
  pair : o.pair = p.pair
  side : o.side = side
  listed : Listed (directory env log) o

theorem Listed.append {o : Order} (h : Listed (directory env log) o) (hfiled : Filed env (log ++ es)) :
    Listed (directory env (log ++ es)) o := by
  obtain ⟨placed, hlookup, heq⟩ := h
  exact ⟨placed, hfiled.directory_append hlookup, heq⟩

/-- A resting order is listed. -/
theorem Filed.listed_of_find (h : Filed env log) {book : OrderBook} (hbooks : book.books = (projectLog env log).books)
    {o : Order} (hfind : book.findOrder o.id = some o) : Listed (directory env log) o := by
  have hfind' : OrderBook.findOrder ⟨(projectLog env log).books, 0⟩ o.id = some o := hbooks ▸ hfind
  obtain ⟨r, hr, rfl⟩ := Option.map_eq_some_iff.mp hfind'
  exact (OrderBook.all_locate h.listed hr).2

variable {p : PendingAggregation}

/-- A chunk has the orders of both legs of its matches. -/
theorem Traced.legs (h : Traced env log p) (hfiled : Filed env log) {m : Match} (hm : m ∈ p.matchList) :
    ∃ bid ask, Leg env log p m.bid.orderId .buy bid ∧ Leg env log p m.ask.orderId .sell ask := by
  obtain ⟨before, es, after, st, now, result, rfl, hround, hchunk⟩ := h
  have hwf : st.book.WF := hround.filed.book_wf hround.books
  have hmem : m ∈ result.matchList := List.mem_of_mem_pieces (by decide) hchunk.piece hm
  obtain ⟨bid, hbid, ask, hask, -, -, -, -, -, -, heq⟩ := runAuction_match (tickRound_eq_some.mp hround.run).1 hmem
  obtain ⟨hbfind, hbpair, hbside⟩ := (OrderBook.mem_bids hwf).mp hbid
  obtain ⟨hafind, hapair, haside⟩ := (OrderBook.mem_asks hwf).mp hask
  have hbid : m.bid.orderId = bid.id := by rw [heq]
  have hask : m.ask.orderId = ask.id := by rw [heq]
  refine ⟨bid, ask, ?_, ?_⟩
  · refine ⟨?_, hbid.symm, hbpair.trans hchunk.pair.symm, hbside, (hround.filed.listed_of_find hround.books hbfind).append hfiled⟩
    rw [hchunk.orders, hbid]
    exact orderSnapshot_lookup hwf hbfind hmem (Or.inl hbid)
  · refine ⟨?_, hask.symm, hapair.trans hchunk.pair.symm, haside, (hround.filed.listed_of_find hround.books hafind).append hfiled⟩
    rw [hchunk.orders, hask]
    exact orderSnapshot_lookup hwf hafind hmem (Or.inr hask)

/-- The row settles the match between the traders who placed its orders. -/
structure RowOf (orders : Table Uuid Order) (m : Match) (row : SettlementMatch) : Prop where
  bidOrderId : row.bidOrderId = m.bid.orderId
  askOrderId : row.askOrderId = m.ask.orderId
  bidTrader : (orders.lookup m.bid.orderId).map Order.trader = some row.bidTrader
  askTrader : (orders.lookup m.ask.orderId).map Order.trader = some row.askTrader
  price : row.price = m.price
  size : row.size = m.size

theorem tryBuildSettlementRow_rowOf {m : Match} {orders : Table Uuid Order} {pairs : Table String PairConfig}
    {row : SettlementMatch} (h : tryBuildSettlementRow m orders pairs = .ok row) : RowOf orders m row := by
  unfold tryBuildSettlementRow at h
  split at h
  next => simp at h
  next bid hbid =>
    split at h
    next => simp at h
    next ask hask =>
      split at h
      next => simp at h
      next cfg hcfg =>
        cases Except.ok.inj h
        exact ⟨rfl, rfl, by rw [hbid]; rfl, by rw [hask]; rfl, rfl, rfl⟩

/-- The rows of a batch are those of its matches, in order. -/
theorem buildSettlementMatches_rowOf {st : EngineState} {rows : List SettlementMatch}
    (h : buildSettlementMatches p st = .ok rows) : List.Forall₂ (RowOf p.orders) p.matchList rows :=
  (mapM_forall₂ h).imp (fun _ _ hrow => tryBuildSettlementRow_rowOf (mapErr_eq_ok.mp hrow))

namespace World

variable {w w' : World env} {a : Action}

/-- The rows the fold loop holds are those of the matches it settles. -/
def RowsHeld (w : World env) : Prop := ∀ x ∈ w.resolved, List.Forall₂ (RowOf x.1.orders) x.1.matchList x.2

theorem RowsHeld.effect (h : RowsHeld w) (heffect : w.Effect a w') : RowsHeld w' := by
  intro x hx
  rcases heffect.frame.resolved x hx with hx | ⟨-, hbuilt⟩
  · exact h x hx
  · exact buildSettlementMatches_rowOf hbuilt

end World

/-- The settlement rows of a chunk can always be built. -/
theorem System.Recorded.resolves {σ : System env} (h : Recorded σ) (htraced : Traced env σ.log p) :
    ∃ rows, buildSettlementMatches p σ.world.state = .ok rows := by
  refine mapM_total (fun m hm => ?_)
  obtain ⟨bid, ask, hbid, hask⟩ := htraced.legs h.filed hm
  obtain ⟨placed, hlookup, heq⟩ := hbid.listed
  have hpair : bid.pair = placed.pair := by rw [heq]; rfl
  have hregistered := directory_registered hlookup
  rw [← hpair, ← Registry.isSome h.same.registry] at hregistered
  obtain ⟨cfg, hcfg⟩ := Option.isSome_iff_exists.mp hregistered
  have hcfg' : σ.world.state.pairTokens.lookup bid.pair = some cfg := hcfg
  rw [tryBuildSettlementRow]
  simp only [hbid.found, hask.found, hcfg']
  exact ⟨_, rfl⟩

end DarkPool
