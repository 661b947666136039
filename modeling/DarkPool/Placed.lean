import DarkPool.Persistence

namespace DarkPool

/-- The order an event places, read back as replay reads it. -/
def Event.placed (env : Env) (ev : Event) : Option ReplayedOrder :=
  match ev.data with
  | .orderPlaced orderId commitment _ ciphertext => (replayOrder env ev orderId commitment ciphertext).toOption
  | _ => none

variable {env : Env} {ev : Event}

theorem placed_eq_none (h : ∀ id c proof ct, ev.data ≠ .orderPlaced id c proof ct) : ev.placed env = none := by
  unfold Event.placed
  split
  next id c proof ct hdata => exact absurd hdata (h id c proof ct)
  next => rfl

theorem placed_eq_some {o : ReplayedOrder} (h : ev.placed env = some o) :
    ∃ id c proof ct, ev.data = .orderPlaced id c proof ct ∧ replayOrder env ev id c ct = .ok o := by
  unfold Event.placed at h
  split at h
  next id c proof ct hdata =>
    refine ⟨id, c, proof, ct, hdata, ?_⟩
    cases hread : replayOrder env ev id c ct with
    | error e => simp [hread, Except.toOption] at h
    | ok o' =>
      rw [hread] at h
      cases Option.some.inj h
      rfl
  next => simp at h

theorem placed_of_data {id : Uuid} {c proof ct : Bytes} {o : ReplayedOrder} (hdata : ev.data = .orderPlaced id c proof ct)
    (hread : replayOrder env ev id c ct = .ok o) : ev.placed env = some o := by
  unfold Event.placed
  rw [hdata]
  simp [hread, Except.toOption]

theorem listPlaced_eq (t : Table Uuid Order) (ev : Event) :
    listPlaced env t ev = match ev.placed env with
      | some o => t.insert o.order.id o.order
      | none => t := by
  unfold listPlaced Event.placed
  cases ev.data with
  | orderPlaced id c proof ct =>
    dsimp only
    cases replayOrder env ev id c ct <;> rfl
  | _ => rfl

theorem books_apply_placed {p : Projection} {o : ReplayedOrder} (h : ev.placed env = some o) :
    p.apply env ev = p.place o := by
  obtain ⟨id, c, proof, ct, hdata, hread⟩ := placed_eq_some h
  rw [Projection.apply, hdata]
  simp only [hread]

theorem EventData.Routine.not_placed {data : EventData} (h : data.Routine) (id : Uuid) (c proof ct : Bytes) :
    data ≠ .orderPlaced id c proof ct := by
  rintro rfl
  exact h

namespace World

variable {w w' : World env} {a : Action}

/-- A section that places an order appends one event, and made its checks under the same lock. -/
structure Places (w w' : World env) (ev : Event) (o : ReplayedOrder) : Prop where
  logs : w.store.Logs w'.store [ev]
  placed : ev.placed env = some o
  fresh : ¬ w.Used o.order.id
  used : w'.Used o.order.id
  accepting : checkAccepting w.state o.order.pair = .ok ()
  unspent : checkUnspent w.state o.digest o.replay = .ok ()
  capacity : ensureOrderCapacity w.state o.order.trader = .ok ()
  sized : 0 < o.order.size ∧ o.order.remainingSize = o.order.size
  secret : (w'.secrets.lookup o.order.id).isSome

/-- Every other section appends no placement. -/
theorem Effect.placed (h : w.Effect a w') :
    (∃ ev o, Places w w' ev o) ∨ ∃ es, w.store.Logs w'.store es ∧ ∀ ev ∈ es, ev.placed env = none := by
  cases h with
  | routine frame core secrets closing inflight =>
    obtain ⟨es, hcore, hroutine, -⟩ := core
    exact Or.inr ⟨es, hcore.logs, fun ev hev => placed_eq_none (hroutine ev hev).not_placed⟩
  | register frame config registers key ev parse absent data logs state secrets closing inflight =>
    refine Or.inr ⟨[ev], logs, fun e he => placed_eq_none ?_⟩
    rw [List.mem_singleton.mp he, data]
    simp [registeredData]
  | place frame p ev fresh used core data timestamp pending secrets closing inflight accepting unspent persists capacity =>
    have hread := replayOrder_placement p.valid timestamp
    have horder := p.valid.order
    have hsize : p.order.size = p.plaintext.size := by rw [horder]
    have hremaining : p.order.remainingSize = p.plaintext.size := by rw [horder]
    refine Or.inl ⟨ev, _, core.logs, placed_of_data data hread, fresh, used, accepting, unspent, capacity, ⟨?_, ?_⟩, ?_⟩
    · exact hsize ▸ p.valid.size_pos
    · exact hremaining.trans hsize.symm
    · rw [secrets, AList.lookup_insert]
      rfl
  | round frame now auctionId batchIds fresh nodup pair result run pieces es core data pending secrets closing inflight =>
    refine Or.inr ⟨es, core.logs, fun e he => placed_eq_none ?_⟩
    rcases mem_round data he with hd | ⟨m, -, hd⟩
    · simp [hd, executedEvent, Event.unsequenced]
    · simp [hd]
  | folds frame p queue root round toSubmit counted ev core data state secrets closing inflight =>
    refine Or.inr ⟨[ev], core.logs, fun e he => placed_eq_none ?_⟩
    rw [List.mem_singleton.mp he, data]
    simp
  | submit frame p rows proof ev submits resolved core data pending secrets closing inflight =>
    refine Or.inr ⟨[ev], core.logs, fun e he => placed_eq_none ?_⟩
    rw [List.mem_singleton.mp he, data]
    simp
  | opens frame b ev closes logs state secrets closing inflight =>
    refine Or.inr ⟨[ev], logs, fun e he => placed_eq_none ?_⟩
    rw [List.mem_singleton.mp he]
    rcases closes with ⟨tx, hd⟩ | ⟨block, tx, hd⟩ <;> simp [hd]
  | closes frame b ev store state secrets closing inflight =>
    exact Or.inr ⟨[], ⟨by rw [store, List.append_nil], numbered_nil _, by rw [store]; rfl⟩, by simp⟩

end World

namespace System

variable {σ σ' : System env} {m : Move}

theorem Effect.placed (h : σ.Effect m σ') :
    (∃ ev o, σ'.log = σ.log ++ [ev] ∧ World.Places σ.world σ'.world ev o) ∨
      ∃ es, σ'.log = σ.log ++ es ∧ ∀ ev ∈ es, ev.placed env = none := by
  cases h with
  | op step effect =>
    rcases effect.placed with ⟨ev, o, hplaces⟩ | ⟨es, hlogs, hes⟩
    · exact Or.inl ⟨ev, o, log_withWorld hplaces.logs, hplaces⟩
    · exact Or.inr ⟨es, log_withWorld hlogs, hes⟩
  | capture idle => exact Or.inr ⟨[], (List.append_nil _).symm, by simp⟩
  | publish store world log holds tail covered envelopes =>
    exact Or.inr ⟨[], log.trans (List.append_nil _).symm, by simp⟩
  | restart out start seq r es recovers fresh =>
    refine Or.inr ⟨es, log_restarted recovers.commits.logs _ _, fun ev hev => placed_eq_none ?_⟩
    obtain ⟨a, -, count, proof, hd⟩ := recovers.rescues ev hev
    simp [hd]

end System

end DarkPool
