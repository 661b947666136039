import DarkPool.FoldLoop
import DarkPool.Placed
import DarkPool.Settlement

namespace DarkPool

variable {env : Env}

/-- The token that a leg on this side of the pair spends. -/
def PairConfig.spends (config : PairConfig) : Side → Address
  | .buy => config.quoteToken
  | .sell => config.baseToken

theorem SameTokens.spends {c c' : PairConfig} (h : SameTokens c c') (side : Side) : c.spends side = c'.spends side := by
  cases side
  · exact h.2
  · exact h.1

theorem checkPairConfig_spends {st : EngineState} {d : DecryptedOrder} {key : String} {token : Address} {decimals : UInt8}
    (h : checkPairConfig st d key = .ok (token, decimals)) :
    ∃ cfg, st.pairConfig key = some cfg ∧ token = cfg.spends d.side := by
  unfold checkPairConfig at h
  split at h
  next => simp at h
  next cfg hcfg =>
    simp only [guard_eq_ok] at h
    obtain ⟨-, -, -, h⟩ := h
    refine ⟨cfg, hcfg, ?_⟩
    cases hside : d.side <;> rw [hside] at h <;> cases Except.ok.inj h <;> rfl

/-- A call of `BalanceOracle::lookup` for a placement that passed its checks, and the balance it returned. -/
structure Reading where
  orderId : Uuid
  trader : Address
  token : Address
  balance : Decimal

/-- The reading was made for the order: for its trader, in the token its leg spends. -/
structure ReadFor (st : EngineState) (o : Order) (r : Reading) : Prop where
  orderId : r.orderId = o.id
  trader : r.trader = o.trader
  token : ∃ cfg, st.pairConfig o.pair = some cfg ∧ r.token = cfg.spends o.side

def Task.preparedOrders : Task env → List (PreparedOrder env)
  | .prepared order => [order]
  | _ => []

namespace World

/-- The reading behind the placement that the section prepares. -/
def lookups (w : World env) (a : Action) : List Reading :=
  match a, w.taskOf a with
  | .prepareOrder _ id now (some (balance, position)), some (.placing ciphertext proof caller) =>
    match prepareOrder env w.state ciphertext proof caller id now balance position with
    | .ok p =>
      match checkPairConfig w.state p.plaintext p.order.pair with
      | .ok (token, _) => [⟨p.order.id, p.order.trader, token, balance⟩]
      | .error _ => []
    | .error _ => []
  | _, _ => []

def preparedOrders (w : World env) : List (PreparedOrder env) := w.tasks.flatMap Task.preparedOrders

/-- No placement is prepared, and the ids drawn stay drawn. -/
structure PreparesNone (w w' : World env) : Prop where
  prepared : ∀ p ∈ w'.preparedOrders, p ∈ w.preparedOrders
  issued : ∀ id ∈ w.issued, id ∈ w'.issued

variable {w w' : World env} {a : Action} {i : Nat} {task t : Task env}

theorem preparesNone_refl (htasks : w'.tasks = w.tasks) (hissued : ∀ id ∈ w.issued, id ∈ w'.issued) : PreparesNone w w' :=
  ⟨fun p hp => by rwa [preparedOrders, htasks] at hp, hissued⟩

theorem preparesNone_set (ht : t.preparedOrders = []) (htasks : w'.tasks = w.tasks.set i t) (hissued : w'.issued = w.issued) :
    PreparesNone w w' := by
  refine ⟨fun p hp => ?_, fun id hid => hissued ▸ hid⟩
  rw [preparedOrders, htasks] at hp
  obtain ⟨x, hx, hpx⟩ := List.mem_flatMap.mp hp
  rcases List.mem_or_eq_of_mem_set hx with hx | rfl
  · exact List.mem_flatMap.mpr ⟨x, hx, hpx⟩
  · rw [ht] at hpx
    simp at hpx

theorem preparesNone_end (htasks : w'.tasks = w.tasks.eraseIdx i) (hissued : w'.issued = w.issued) : PreparesNone w w' := by
  refine ⟨fun p hp => ?_, fun id hid => hissued ▸ hid⟩
  rw [preparedOrders, htasks] at hp
  obtain ⟨x, hx, hpx⟩ := List.mem_flatMap.mp hp
  exact List.mem_flatMap.mpr ⟨x, List.mem_of_mem_eraseIdx hx, hpx⟩

theorem preparesNone_spawn (ht : t.preparedOrders = []) (htasks : w'.tasks = w.tasks ++ [t]) (hissued : w'.issued = w.issued) :
    PreparesNone w w' := by
  refine ⟨fun p hp => ?_, fun id hid => hissued ▸ hid⟩
  rw [preparedOrders, htasks] at hp
  simpa [ht, preparedOrders] using hp

theorem stepTaskFree_preparesNone (h : w.stepTaskFree i task a = some w') : PreparesNone w w' := by
  unfold stepTaskFree at h
  repeat' split at h
  all_goals first
    | cases Option.some.inj h
      first
      | exact preparesNone_end rfl rfl
      | exact preparesNone_set rfl rfl rfl
    | simp at h

theorem stepFree_preparesNone (h : w.stepFree a = some w') : PreparesNone w w' := by
  unfold stepFree at h
  repeat' split at h
  all_goals first
    | cases Option.some.inj h
      first
      | exact preparesNone_refl rfl (fun _ hid => hid)
      | exact preparesNone_spawn rfl rfl rfl
    | simp at h

theorem stepTick_preparesNone {tick : TickUnderLock} (h : w.stepTick tick a = some w') : PreparesNone w w' := by
  unfold stepTick at h
  repeat' split at h
  all_goals first
    | cases Option.some.inj h
      first
      | exact preparesNone_refl rfl (fun _ hid => List.mem_append_right _ hid)
      | exact preparesNone_spawn rfl rfl rfl
    | simp at h

theorem stepLocked_preparesNone (h : w.stepLocked a = some w') : PreparesNone w w' := by
  have hcall : ∀ call, PreparesNone w (w.lockedCall call) := by
    intro call
    unfold lockedCall
    split <;> exact preparesNone_refl rfl (fun _ hid => hid)
  unfold stepLocked at h
  repeat' split at h
  all_goals first
    | cases Option.some.inj h
      first
      | exact preparesNone_refl rfl (fun _ hid => hid)
      | exact preparesNone_spawn rfl rfl rfl
      | exact hcall _
    | simp at h

theorem stepTaskLocked_preparesNone (ha : ∀ j id now oracle, a ≠ .prepareOrder j id now oracle)
    (h : w.stepTaskLocked i task a = some w') : PreparesNone w w' := by
  cases a with
  | prepareOrder j id now oracle => exact absurd rfl (ha j id now oracle)
  | _ =>
    simp only [stepTaskLocked] at h
    repeat' split at h
    all_goals first
      | cases Option.some.inj h
        first
        | exact preparesNone_end rfl rfl
        | exact preparesNone_set rfl rfl rfl
      | simp at h

/-- The section prepares `order` under a new id, for which it has made the reading. -/
structure Prepares (w w' : World env) (order : PreparedOrder env) (r : Reading) : Prop where
  prepared : ∀ p ∈ w'.preparedOrders, p = order ∨ p ∈ w.preparedOrders
  issued : w'.issued = r.orderId :: w.issued
  fresh : r.orderId ∉ w.issued
  read : ReadFor w.state order.order r
  balance : r.balance = order.secrets.balance

theorem lookups_other (ha : ∀ j id now oracle, a ≠ .prepareOrder j id now oracle) : w.lookups a = [] := by
  unfold lookups
  split
  next j id now balance position ciphertext proof caller ht => exact absurd rfl (ha _ _ _ _)
  next => rfl

theorem step_preparesNone (ha : ∀ j id now oracle, a ≠ .prepareOrder j id now oracle) (h : w.step a = some w') :
    PreparesNone w w' := by
  unfold World.step at h
  split at h
  next i htask =>
    split at h
    next => simp at h
    next task hi =>
      split at h
      next w1 hfree =>
        cases Option.some.inj h
        exact stepTaskFree_preparesNone hfree
      next =>
        split at h
        next => exact stepTaskLocked_preparesNone ha h
        next => simp at h
  next =>
    split at h
    next w1 hfree =>
      cases Option.some.inj h
      exact stepFree_preparesNone hfree
    next =>
      split at h
      next => exact stepTick_preparesNone h
      next => exact stepLocked_preparesNone h

theorem prepareOrder_prepares {id : Uuid} {now : Now} {oracle : Option (Decimal × Int)} (hi : w.tasks[i]? = some task)
    (h : w.stepTaskLocked i task (.prepareOrder i id now oracle) = some w') :
    (w.lookups (.prepareOrder i id now oracle) = [] ∧ PreparesNone w w') ∨
      ∃ order r, w.lookups (.prepareOrder i id now oracle) = [r] ∧ Prepares w w' order r := by
  have htask : w.taskOf (.prepareOrder i id now oracle) = some task := hi
  simp only [stepTaskLocked] at h
  split at h
  next ciphertext proof caller =>
    split at h
    next hfresh =>
      split at h
      next =>
        cases Option.some.inj h
        exact Or.inl ⟨rfl, preparesNone_end rfl rfl⟩
      next balance position =>
        split at h
        next order horder =>
          cases Option.some.inj h
          obtain ⟨key, ⟨token, decimals⟩, -, hspend, hplacement⟩ := prepareOrder_eq_ok horder
          obtain ⟨rfl, rfl, hbalance, -⟩ := preparePlacement_eq_ok hplacement
          obtain ⟨cfg, hcfg, htoken⟩ := checkPairConfig_spends hspend
          have hside : order.order.side = order.plaintext.side := by rw [order.valid.order]
          refine Or.inr ⟨order, ⟨order.order.id, order.order.trader, token, balance⟩, ?_, ?_⟩
          · simp [lookups, htask, horder, hspend]
          · refine ⟨fun p hp => ?_, rfl, hfresh.2 _ List.mem_cons_self, ⟨rfl, rfl, cfg, hcfg, ?_⟩, hbalance.symm⟩
            · obtain ⟨x, hx, hpx⟩ := List.mem_flatMap.mp hp
              rcases List.mem_or_eq_of_mem_set hx with hx | rfl
              · exact Or.inr (List.mem_flatMap.mpr ⟨x, hx, hpx⟩)
              · exact Or.inl (List.mem_singleton.mp hpx)
            · rw [htoken, hside]
        next e herror =>
          cases Option.some.inj h
          refine Or.inl ⟨?_, preparesNone_end rfl rfl⟩
          simp [lookups, htask, herror]
    next => simp at h
  next => simp at h

/-- A section reads the oracle and prepares a placement, or does neither. -/
theorem step_prepares (h : w.step a = some w') :
    (w.lookups a = [] ∧ PreparesNone w w') ∨ ∃ order r, w.lookups a = [r] ∧ Prepares w w' order r := by
  by_cases ha : ∃ i id now oracle, a = .prepareOrder i id now oracle
  · obtain ⟨i, id, now, oracle, rfl⟩ := ha
    simp only [World.step, Action.task, stepTaskFree] at h
    split at h
    next => simp at h
    next task hi =>
      split at h
      next => exact prepareOrder_prepares hi h
      next => simp at h
  · simp only [not_exists] at ha
    exact Or.inl ⟨lookups_other ha, step_preparesNone ha h⟩

end World

section Tokens

variable {w w' : World env} {a : Action} {ev : Event} {es : List Event}

/-- No pair is dropped from the registry or moved to other tokens. -/
def EngineState.KeepsTokens (st st' : EngineState) : Prop :=
  ∀ pair cfg, st.pairConfig pair = some cfg → ∃ cfg', st'.pairConfig pair = some cfg' ∧ SameTokens cfg cfg'

theorem ReadFor.keeps {st st' : EngineState} {o : Order} {r : Reading} (h : ReadFor st o r) (hkeeps : st.KeepsTokens st') :
    ReadFor st' o r := by
  obtain ⟨cfg, hcfg, htoken⟩ := h.token
  obtain ⟨cfg', hcfg', hsame⟩ := hkeeps o.pair cfg hcfg
  exact ⟨h.orderId, h.trader, cfg', hcfg', htoken.trans (hsame.spends o.side)⟩

def EventData.Registers : EventData → Prop
  | .pairRegistered _ _ _ _ _ _ _ _ => True
  | _ => False

theorem tokens_apply {p : Projection} (hev : ¬ ev.data.Registers) {pair : String} {cfg : PairConfig}
    (h : p.pairTokens.lookup pair = some cfg) :
    ∃ cfg', (p.apply env ev).pairTokens.lookup pair = some cfg' ∧ SameTokens cfg cfg' := by
  have hstatus : ∀ key status, ∃ cfg', (p.setStatus key status).pairTokens.lookup pair = some cfg' ∧ SameTokens cfg cfg' := by
    intro key status
    rw [Projection.setStatus, Table.lookup_modify_eq, h]
    split
    next => exact ⟨_, rfl, rfl, rfl⟩
    next => exact ⟨_, rfl, rfl, rfl⟩
  have hkeep : ∃ cfg', p.pairTokens.lookup pair = some cfg' ∧ SameTokens cfg cfg' := ⟨cfg, h, rfl, rfl⟩
  unfold Projection.apply
  cases hdata : ev.data with
  | orderPlaced id c proof ct =>
    dsimp only
    split
    next o ho =>
      simp only [Projection.place, orDefault]
      split
      next => exact hkeep
      next hnone =>
        refine ⟨cfg, ?_, rfl, rfl⟩
        rw [Table.lookup_insert_eq, if_neg, h]
        rintro rfl
        simp [h] at hnone
    next => exact hkeep
  | pairRegistered key base quote min tick ms bd qd =>
    rw [hdata] at hev
    exact absurd trivial hev
  | pairSuspended key => exact hstatus _ _
  | pairDelisted key => exact hstatus _ _
  | _ => exact hkeep

theorem tokens_applyAll {p : Projection} (hes : ∀ ev ∈ es, ¬ ev.data.Registers) {pair : String} {cfg : PairConfig}
    (h : p.pairTokens.lookup pair = some cfg) :
    ∃ cfg', (p.applyAll env es).pairTokens.lookup pair = some cfg' ∧ SameTokens cfg cfg' := by
  induction es generalizing p cfg with
  | nil => exact ⟨cfg, h, rfl, rfl⟩
  | cons ev es ih =>
    obtain ⟨cfg1, h1, hsame1⟩ := @tokens_apply env ev p (hes ev List.mem_cons_self) pair cfg h
    obtain ⟨cfg2, h2, hsame2⟩ := ih (fun e he => hes e (List.mem_cons_of_mem ev he)) h1
    exact ⟨cfg2, h2, hsame1.1.trans hsame2.1, hsame1.2.trans hsame2.2⟩

theorem Commits.keepsTokens {st st' : EngineState} {store store' : Store} (h : Commits env st store st' store' es)
    (hes : ∀ ev ∈ es, ¬ ev.data.Registers) : st.KeepsTokens st' := by
  intro pair cfg hcfg
  have hafter := @tokens_applyAll env es st.projection hes pair cfg hcfg
  rwa [← h.projection] at hafter

theorem World.Effect.keepsTokens (h : w.Effect a w') : w.state.KeepsTokens w'.state := by
  cases h with
  | routine frame core secrets closing inflight =>
    obtain ⟨es, hcore, hroutine, -⟩ := core
    refine hcore.keepsTokens (fun ev hev hreg => ?_)
    have hr := hroutine ev hev
    cases hd : ev.data <;> simp [hd, EventData.Registers, EventData.Routine] at hreg hr
  | register frame config registers key ev parse absent data logs state secrets closing inflight =>
    intro pair cfg hcfg
    refine ⟨cfg, ?_, rfl, rfl⟩
    rw [state, EngineState.pairConfig, EngineState.withPairTokens, Table.lookup_insert_eq, if_neg]
    · exact hcfg
    · rintro rfl
      rw [EngineState.pairConfig, absent] at hcfg
      simp at hcfg
  | place frame p ev fresh used core data timestamp pending secrets closing inflight =>
    exact core.keepsTokens (by simp [data, EventData.Registers])
  | round frame now auctionId batchIds fresh nodup pair result run pieces es core data pending secrets closing inflight =>
    refine core.keepsTokens (fun ev hev => ?_)
    rcases mem_round data hev with hd | ⟨m, -, hd⟩
    · simp [hd, executedEvent, Event.unsequenced, EventData.Registers]
    · simp [hd, EventData.Registers]
  | folds frame p queue root round toSubmit counted ev core data state secrets closing inflight =>
    exact core.keepsTokens (by simp [data, EventData.Registers])
  | submit frame p rows proof ev submits resolved core data pending secrets closing inflight =>
    exact core.keepsTokens (by simp [data, EventData.Registers])
  | opens frame b ev closes logs state secrets closing inflight =>
    rw [state]
    exact fun pair cfg hcfg => ⟨cfg, hcfg, rfl, rfl⟩
  | closes frame b ev store state secrets closing inflight =>
    rw [state]
    exact fun pair cfg hcfg => ⟨cfg, hcfg, rfl, rfl⟩

end Tokens

namespace System

variable {σ σ' : System env} {m : Move} {moves : List Move}

/-- Tokens are kept by every move, also when the engine is restarted. -/
theorem Effect.keepsTokens (h : σ.Effect m σ') (hfollows : Follows SameTokens σ) :
    σ.world.state.KeepsTokens σ'.world.state := by
  cases h with
  | op step effect => exact effect.keepsTokens
  | capture idle => exact fun pair cfg hcfg => ⟨cfg, hcfg, rfl, rfl⟩
  | publish store world log holds tail covered envelopes =>
    rw [world]
    exact fun pair cfg hcfg => ⟨cfg, hcfg, rfl, rfl⟩
  | restart out start seq r es recovers fresh =>
    -- Both states mean the same log.
    have hsame := recovers.same registryRel_sameTokens (fun e he => hfollows.taken e (List.mem_append_right _ he))
    intro pair cfg hcfg
    obtain ⟨c1, h1, ht1⟩ := hfollows.same.registry.exists_of_lookup hcfg
    obtain ⟨c2, h2, ht2⟩ := hsame.registry.flip.exists_of_lookup h1
    have hes : ∀ ev ∈ es, ¬ ev.data.Registers := by
      intro ev hev
      obtain ⟨b, -, count, proof, hd⟩ := recovers.rescues ev hev
      simp [hd, EventData.Registers]
    obtain ⟨c3, h3, ht3⟩ := recovers.commits.keepsTokens hes pair c2 h2
    exact ⟨c3, h3, ht1.1.trans (ht2.1.symm.trans ht3.1), ht1.2.trans (ht2.2.symm.trans ht3.2)⟩

/-- The readings of the oracle that a move makes. -/
def lookups (σ : System env) : Move → List Reading
  | .op a => σ.world.lookups a
  | _ => []

/-- The readings of the run so far. -/
def lookupsIn (env : Env) (moves : List Move) : List Reading := Transition.collect step lookups (initial env) moves

end System

end DarkPool
