import DarkPool.FoldLoop
import DarkPool.Traced

namespace DarkPool

/-- The leaf an event gives for the order, if it places it. -/
def EventData.commits (data : EventData) (id : Uuid) : Option Fr :=
  match data with
  | .orderPlaced orderId commitment _ _ => if orderId = id then (bytes32ToScalar commitment).toOption else none
  | _ => none

/-- The commitment in the `OrderPlaced` event of the order. -/
def loggedCommitment (log : List Event) (id : Uuid) : Option Fr := log.findSome? (fun ev => ev.data.commits id)

/-- The orders of the pair that rest in the books, in matching priority. -/
def restingIds (books : Table String PerPairBook) (pair : String) : List Uuid :=
  (OrderBook.bids ⟨books, 0⟩ pair ++ OrderBook.asks ⟨books, 0⟩ pair).map Order.id

/-- The commitments of the orders of the pair that the log shows resting. -/
def restingCommitments (env : Env) (log : List Event) (pair : String) : List Fr :=
  (restingIds (projectLog env log).books pair).filterMap (loggedCommitment log)

/-- What a watcher that has read the log so far expects as the input root of the pair. -/
def expectedRoot (env : Env) (log : List Event) (pair : String) : Option Bytes :=
  (admittedSetRoot env (restingCommitments env log pair)).toOption.map (fun r => (frToBytes32 r).toVec)

/-- The root is the one of the orders that rested when the auction the batch was drawn for was executed. -/
def RootedAt (env : Env) (moves : List Move) (log : List Event) (batchId : Uuid) (pair : String) (root : Bytes) : Prop :=
  ∃ auctionId, Draws moves batchId auctionId ∧ ∃ before ev after, log = before ++ ev :: after ∧
    (∃ price volume count ts, ev.data = .auctionExecuted auctionId pair price volume count ts) ∧
    expectedRoot env before pair = some root

section Runs

variable {env : Env}

theorem loggedCommitment_append (xs ys : List Event) (id : Uuid) :
    loggedCommitment (xs ++ ys) id = (loggedCommitment xs id).or (loggedCommitment ys id) := List.findSome?_append

theorem loggedCommitment_of_isSome {before log : List Event} {id : Uuid} (h : (loggedCommitment before id).isSome)
    (hinit : ∃ after, log = before ++ after) : loggedCommitment log id = loggedCommitment before id := by
  obtain ⟨after, rfl⟩ := hinit
  obtain ⟨f, hf⟩ := Option.isSome_iff_exists.mp h
  rw [loggedCommitment_append, hf]
  rfl

/-- A placement that can be read back has a canonical commitment. -/
theorem replayOrder_commits {ev : Event} {id : Uuid} {c ct : Bytes} {o : ReplayedOrder}
    (h : replayOrder env ev id c ct = .ok o) : o.order.id = id ∧ ∃ f, bytes32ToScalar c = .ok f := by
  unfold replayOrder at h
  split at h
  next => simp at h
  next d hd =>
    simp only [bind_eq_ok, mapErr_eq_ok, guard_eq_ok] at h
    obtain ⟨salt, -, recomputed, -, f, hf, saltFr, -, hc, nonce, -, expiry, -, pair, -, h⟩ := h
    cases Except.ok.inj h
    exact ⟨rfl, f, not_not.mp hc ▸ hf⟩

theorem placed_commits {ev : Event} {o : ReplayedOrder} (h : ev.placed env = some o) :
    ∃ f, ev.data.commits o.order.id = some f := by
  obtain ⟨id, c, proof, ct, hdata, hread⟩ := placed_eq_some h
  obtain ⟨rfl, f, hf⟩ := replayOrder_commits hread
  exact ⟨f, by rw [hdata, EventData.commits, if_pos rfl, hf]; rfl⟩

/-- Every order that rests has its commitment in the log. -/
theorem Filed.committed {log : List Event} (h : Filed env log) {pair : String} {id : Uuid}
    (hid : id ∈ restingIds (projectLog env log).books pair) : (loggedCommitment log id).isSome := by
  obtain ⟨o, ho, rfl⟩ := List.mem_map.mp hid
  have hfind : OrderBook.findOrder ⟨(projectLog env log).books, 0⟩ o.id = some o := by
    rcases List.mem_append.mp ho with ho | ho
    · exact ((OrderBook.mem_bids h.wf).mp ho).1
    · exact ((OrderBook.mem_asks h.wf).mp ho).1
  cases hlookup : (directory env log).lookup o.id with
  | none =>
    rw [h.findOrder_eq_none hlookup] at hfind
    simp at hfind
  | some placed =>
    obtain ⟨ev, hev, r, hr, hrid, -⟩ := directory_lookup hlookup
    obtain ⟨f, hf⟩ := placed_commits hr
    rw [loggedCommitment, List.findSome?_isSome_iff]
    exact ⟨ev, hev, by rw [← hrid, hf]; rfl⟩

theorem fromWitnessWithAdmitted_root {witness : BatchWitness} {prices sizes : List Decimal} {batchSize : Nat}
    {admitted : List Fr} {ext : AuctionExternalInputs}
    (h : fromWitnessWithAdmitted env witness prices sizes batchSize admitted = .ok ext) :
    admittedSetRoot env admitted = .ok ext.admittedRoot := by
  simp only [fromWitnessWithAdmitted, attachMembership, bind_eq_ok] at h
  obtain ⟨rows, -, root, hroot, paths, -, h⟩ := h
  cases Except.ok.inj h
  exact hroot

theorem RootedAt.append {moves : List Move} {log : List Event} {batchId : Uuid} {pair : String} {root : Bytes}
    (h : RootedAt env moves log batchId pair root) (es : List Event) : RootedAt env moves (log ++ es) batchId pair root := by
  obtain ⟨auctionId, hdraws, before, ev, after, rfl, hev, hroot⟩ := h
  exact ⟨auctionId, hdraws, before, ev, after ++ es, by simp, hev, hroot⟩

/-- The root the fold loop carries. -/
def FoldStage.root : FoldStage → Option Bytes
  | .encoded ext => some ext.inputRoot
  | .folded root | .counted root _ => some root
  | _ => none

/-- The root that a fold loop carries for the head of its queue is the expected one. -/
def Task.Rooted (moves : List Move) (log : List Event) : Task env → Prop
  | .folding queue stage _ => ∀ p ∈ queue.head?, ∀ root ∈ stage.root, RootedAt env moves log p.batchId p.pair root
  | _ => True

theorem Task.Outside.rooted {moves : List Move} {log : List Event} {t : Task env} (h : t.Outside) : t.Rooted moves log := by
  cases t with
  | folding queue stage toSubmit => exact h.elim
  | _ => trivial

theorem Task.Rooted.append {moves : List Move} {log : List Event} {t : Task env} (h : t.Rooted moves log)
    (es : List Event) : t.Rooted moves (log ++ es) := by
  cases t with
  | folding queue stage toSubmit => exact fun p hp root hroot => (h p hp root hroot).append es
  | _ => trivial

namespace World

variable {w w' : World env} {a : Action}

/-- The aggregation whose fold inputs the section builds. -/
def encodes (w : World env) : Action → Option PendingAggregation
  | .foldInputs i =>
    match w.tasks[i]? with
    | some (.folding (p :: _) _ _) => some p
    | _ => none
  | _ => none

/-- When the fold loop builds the inputs of a fold, the secrets of all admitted orders are still held. -/
def HoldsAdmitted (w : World env) (a : Action) : Prop :=
  ∀ p ∈ w.encodes a, p.admittedOrderIds.all (fun id => (w.secrets.lookup id).isSome) = true

instance (w : World env) (a : Action) : Decidable (w.HoldsAdmitted a) := inferInstanceAs (Decidable (∀ p ∈ _, _))

/-- A secret is held because it was, or because the section placed its order. -/
theorem Effect.secret (h : w.Effect a w') {id : Uuid} {s : OrderSecrets} (hs : w'.secrets.lookup id = some s) :
    w.secrets.lookup id = some s ∨ ∃ (p : PreparedOrder env) (ev : Event), w.store.Logs w'.store [ev] ∧
      ev.data = .orderPlaced id p.commitment p.proof p.ciphertext ∧ ev.timestamp = p.order.submittedAt ∧
      p.order.id = id ∧ ¬ w.Used id ∧ p.secrets = s := by
  cases h with
  | routine frame core secrets closing inflight => exact Or.inl (secrets id s hs)
  | place frame p ev fresh used core data timestamp pending secrets closing inflight =>
    rw [secrets, Table.lookup_insert_eq] at hs
    split at hs
    next heq =>
      subst heq
      exact Or.inr ⟨p, ev, core.logs, data, timestamp, rfl, fresh, Option.some.inj hs⟩
    next => exact Or.inl hs
  | register frame config registers key ev parse absent data logs state secrets closing inflight =>
    exact Or.inl (secrets ▸ hs)
  | round frame now auctionId batchIds fresh nodup pair result run pieces es core data pending secrets closing inflight =>
    exact Or.inl (secrets ▸ hs)
  | folds frame p queue root round toSubmit counted ev core data state secrets closing inflight =>
    exact Or.inl (secrets ▸ hs)
  | submit frame p rows proof ev submits resolved core data pending secrets closing inflight =>
    exact Or.inl (secrets ▸ hs)
  | opens frame b ev closes logs state secrets closing inflight => exact Or.inl (secrets ▸ hs)
  | closes frame b ev store state secrets closing inflight => exact Or.inl (secrets ▸ hs)

/-- Only a fold loop that has counted its fold logs one. -/
theorem Effect.folded (h : w.Effect a w') : ∃ es, w.store.Logs w'.store es ∧
    ∀ ev ∈ es, ∀ b round pair root, ev.data = .batchFolded b round pair root → ∃ p queue toSubmit,
      Task.folding (p :: queue) (.counted root round) toSubmit ∈ w.tasks ∧ p.batchId = b ∧ p.pair = pair := by
  cases h with
  | routine frame core secrets closing inflight =>
    obtain ⟨es, hcore, hroutine, -⟩ := core
    refine ⟨es, hcore.logs, fun ev hev b round pair root hd => ?_⟩
    have hkind := hroutine ev hev
    rw [hd] at hkind
    exact hkind.elim
  | register frame config registers key ev parse absent data logs state secrets closing inflight =>
    exact ⟨[ev], logs, by simp [data, registeredData]⟩
  | place frame p ev fresh used core data timestamp pending secrets closing inflight =>
    exact ⟨[ev], core.logs, by simp [data]⟩
  | round frame now auctionId batchIds fresh nodup pair result run pieces es core data pending secrets closing inflight =>
    refine ⟨es, core.logs, fun ev hev b round pair root hd => ?_⟩
    rcases mem_round data hev with hd' | ⟨m, -, hd'⟩
    · simp [hd, executedEvent, Event.unsequenced] at hd'
    · simp [hd] at hd'
  | folds frame p queue root round toSubmit counted ev core data state secrets closing inflight =>
    refine ⟨[ev], core.logs, fun e he b round' pair root' hd => ?_⟩
    rw [List.mem_singleton.mp he, data, EventData.batchFolded.injEq] at hd
    obtain ⟨rfl, rfl, rfl, rfl⟩ := hd
    exact ⟨p, queue, toSubmit, counted, rfl, rfl⟩
  | submit frame p rows proof ev submits resolved core data pending secrets closing inflight =>
    exact ⟨[ev], core.logs, by simp [data]⟩
  | opens frame b ev closes logs state secrets closing inflight =>
    refine ⟨[ev], logs, fun e he b' round pair root hd => ?_⟩
    rw [List.mem_singleton.mp he] at hd
    rcases closes with ⟨tx, hd'⟩ | ⟨block, tx, hd'⟩ <;> simp [hd] at hd'
  | closes frame b ev store state secrets closing inflight =>
    exact ⟨[], ⟨by rw [store, List.append_nil], numbered_nil _, by rw [store]; rfl⟩, by simp⟩

end World

namespace System

variable {σ σ' : System env} {m : Move} {moves : List Move}

/-- What a placement puts in the vault is what its event commits to. -/
theorem commits_placement (p : PreparedOrder env) {data : EventData} {id : Uuid}
    (h : data = .orderPlaced id p.commitment p.proof p.ciphertext) :
    data.commits id = some (p.secrets.commitment.toNat : Fr) := by
  have hsecrets := p.valid.secrets
  simp only [deriveOrderSecrets, bind_eq_ok, mapErr_eq_ok] at hsecrets
  obtain ⟨traderId, -, f, -, saltFr, -, hsecrets⟩ := hsecrets
  have hcommitment := congrArg OrderSecrets.commitment (Except.ok.inj hsecrets)
  rw [h, EventData.commits, if_pos rfl, p.valid.commitment, ← hcommitment, bytes32ToScalar_frToBytes32,
    frToBytes32_toNat, ZMod.natCast_zmod_val]
  rfl

/-- An id that is not in use has no commitment in the log. -/
theorem Recorded.uncommitted (h : Recorded σ) {id : Uuid} (hid : ¬ σ.world.Used id) : loggedCommitment σ.log id = none := by
  rw [loggedCommitment, List.findSome?_eq_none_iff]
  intro ev hev
  cases hdata : ev.data with
  | orderPlaced orderId c proof ct =>
    rw [EventData.commits, if_neg]
    rintro rfl
    -- The event can be read back, so its id is filed and in use.
    have hplay := h.logged.replayable ev hev
    rw [Replayable, hdata] at hplay
    obtain ⟨o, ho⟩ := hplay
    have hown := h.filed.own ev hev o (placed_of_data hdata ho)
    rw [(replayOrder_commits ho).1] at hown
    exact hid (h.used orderId (by rw [hown]; rfl))
  | _ => rfl

/-- Every root that is logged or on its way to the log is the expected one. -/
structure Rooted (moves : List Move) (σ : System env) : Prop extends Sourced σ where
  committed : ∀ id s, σ.world.secrets.lookup id = some s → loggedCommitment σ.log id = some (s.commitment.toNat : Fr)
  draws : ∀ p ∈ σ.world.inflight, Draws moves p.batchId p.auctionId
  tasks : ∀ t ∈ σ.world.tasks, t.Rooted moves σ.log
  folded : ∀ ev ∈ σ.log, ∀ b round pair root, ev.data = .batchFolded b round pair root →
    RootedAt env moves σ.log b pair root

theorem rooted_initial (env : Env) (moves : List Move) : Rooted moves (initial env) where
  toSourced := sourced_initial env
  committed := by simp [initial, World.initial]
  draws := by simp [initial, World.initial, World.inflight, World.collected]
  tasks := by simp [initial, World.initial]
  folded := by simp [initial, log, World.log, World.initial, Store.empty]

/-- While all their secrets are held, the admitted orders of a round give the expected leaves. -/
theorem Rooted.leaves (h : Rooted moves σ) {p : PendingAggregation} {before es after : List Event} {st : EngineState}
    {now : DateTime} {result : AuctionResult} (hlog : σ.log = before ++ (es ++ after))
    (hround : RoundLog env before es st now result) (hchunk : Chunk st result p)
    (hheld : ∀ id ∈ p.admittedOrderIds, (σ.world.secrets.lookup id).isSome) :
    admittedCommitments σ.world.secrets p.admittedOrderIds = restingCommitments env before p.pair := by
  have hids : p.admittedOrderIds = restingIds (projectLog env before).books p.pair := by
    rw [hchunk.admitted, hchunk.pair, ← hround.books]
    rfl
  rw [admittedCommitments, restingCommitments, ← hids, List.map_filterMap]
  refine List.filterMap_congr (fun id hid => ?_)
  obtain ⟨s, hs⟩ := Option.isSome_iff_exists.mp (hheld id hid)
  have hsome := hround.filed.committed (hids ▸ hid)
  rw [← loggedCommitment_of_isSome hsome ⟨es ++ after, hlog⟩, h.committed id s hs, hs]
  rfl

theorem Rooted.encodes (h : Rooted moves σ) {p : PendingAggregation} (hp : p ∈ σ.world.inflight)
    (hheld : ∀ id ∈ p.admittedOrderIds, (σ.world.secrets.lookup id).isSome) {r : Fr}
    (hr : admittedSetRoot env (admittedCommitments σ.world.secrets p.admittedOrderIds) = .ok r) :
    RootedAt env moves σ.log p.batchId p.pair (frToBytes32 r).toVec := by
  obtain ⟨before, es, after, st, now, result, hlog, hround, hchunk⟩ := h.traced p hp
  rw [h.leaves hlog hround hchunk hheld] at hr
  -- The round starts with its `AuctionExecuted`.
  obtain ⟨ev, es', rfl, hev, -⟩ := List.map_eq_cons_iff.mp hround.data
  refine ⟨p.auctionId, h.draws p hp, before, ev, es' ++ after, hlog, ?_, ?_⟩
  · rw [hchunk.auctionId, hchunk.pair, hev]
    exact ⟨_, _, _, _, rfl⟩
  · rw [expectedRoot, hr]
    rfl

theorem Rooted.op (h : Rooted moves σ) {a : Action} {w' : World env} (hheld : σ.world.HoldsAdmitted a)
    (hstep : σ.world.step a = some w') {es : List Event} (hlog : (σ.withWorld w').log = σ.log ++ es) :
    ∀ t ∈ w'.tasks, t.Rooted moves (σ.withWorld w').log := by
  rw [hlog]
  refine World.step_tasks hstep h.tasks (fun t ht => ht.append es) (fun t ht => ht.rooted) ?_
  intro olds news hturn hmem t ht
  cases hturn with
  | outside own before after => exact Or.inl (after t ht)
  | advances advance =>
    rw [List.mem_singleton.mp ht]
    obtain ⟨hin, htask⟩ := hmem _ List.mem_cons_self
    cases advance with
    | @inputs i witness ext built =>
      rename_i p queue toSubmit
      have hp : p ∈ σ.world.inflight := List.mem_append_right _ (List.mem_flatMap.mpr ⟨_, hin, List.mem_cons_self⟩)
      have hencodes : σ.world.encodes (.foldInputs i) = some p := by
        rw [World.encodes, show σ.world.tasks[i]? = _ from htask]
      have hroot := h.encodes hp (by simpa using hheld p hencodes) (fromWitnessWithAdmitted_root built)
      refine Or.inr (fun q hq root hr => ?_)
      cases Option.some.inj hq
      cases Option.some.inj hr
      exact hroot.append es
    | fold => exact Or.inr ((h.tasks _ hin).append es)
    | count => exact Or.inr ((h.tasks _ hin).append es)
    | _ => exact Or.inr (by simp [Task.Rooted, FoldStage.root])
  | _ =>
    rw [List.mem_singleton.mp ht]
    exact Or.inr (by simp [Task.Rooted, FoldStage.root])

/-- The condition on a move. -/
def HoldsAdmitted (σ : System env) : Move → Prop
  | .op a => σ.world.HoldsAdmitted a
  | _ => True

instance (σ : System env) (m : Move) : Decidable (σ.HoldsAdmitted m) :=
  match m with
  | .op a => inferInstanceAs (Decidable (σ.world.HoldsAdmitted a))
  | .capture | .publish _ _ _ _ | .restart _ _ => isTrue trivial

theorem Rooted.step (h : Rooted moves σ) (hm : m ∈ moves) (hheld : σ.HoldsAdmitted m) (hstep : σ.step m = some σ') :
    Rooted moves σ' := by
  have heffect := step_effect h.toKept hstep
  have hsourced := heffect.sourced h.toSourced
  have hdraws := heffect.draws hm h.draws
  -- What was committed or logged stays so.
  have hcommitted : ∀ {es}, σ'.log = σ.log ++ es → ∀ id s, σ.world.secrets.lookup id = some s →
      loggedCommitment σ'.log id = some (s.commitment.toNat : Fr) := by
    intro es hlog id s hs
    rw [hlog, loggedCommitment_append, h.committed id s hs]
    rfl
  have hfolded : ∀ {es}, σ'.log = σ.log ++ es → (∀ ev ∈ es, ∀ b round pair root,
      ev.data = .batchFolded b round pair root → RootedAt env moves σ.log b pair root) →
      ∀ ev ∈ σ'.log, ∀ b round pair root, ev.data = .batchFolded b round pair root →
        RootedAt env moves σ'.log b pair root := by
    intro es hlog hes ev hev b round pair root hd
    rw [hlog] at hev ⊢
    rcases List.mem_append.mp hev with hev | hev
    · exact (h.folded ev hev b round pair root hd).append es
    · exact (hes ev hev b round pair root hd).append es
  cases heffect with
  | op step effect =>
    obtain ⟨es, hlogs, hes⟩ := effect.folded
    have hlog : (σ.withWorld _).log = σ.log ++ es := log_withWorld hlogs
    refine ⟨hsourced, ?_, hdraws, h.op hheld step hlog, hfolded hlog ?_⟩
    · intro id s hs
      rcases effect.secret hs with hs | ⟨p, ev, hlogs', hdata, -, -, hnew, rfl⟩
      · exact hcommitted hlog id s hs
      · rw [log_withWorld hlogs', loggedCommitment_append, h.uncommitted hnew, Option.none_or, loggedCommitment,
          List.findSome?_singleton]
        exact commits_placement p hdata
    · intro ev hev b round pair root hd
      obtain ⟨p, queue, toSubmit, htask, rfl, rfl⟩ := hes ev hev b round pair root hd
      exact h.tasks _ htask p rfl root rfl
  | capture idle =>
    exact ⟨hsourced, h.committed, hdraws, h.tasks, h.folded⟩
  | publish store world log holds tail covered envelopes =>
    refine ⟨hsourced, ?_, hdraws, ?_, ?_⟩
    · rw [world, log]
      exact h.committed
    · rw [world, log]
      exact h.tasks
    · rw [log]
      exact h.folded
  | restart out start seq r es recovers fresh =>
    have hlog := log_restarted recovers.commits.logs out.1 out.2.1
    refine ⟨hsourced, ?_, hdraws, ?_, hfolded hlog ?_⟩
    · simp [withWorld, World.restarted, World.initial]
    · simp [withWorld, World.restarted, World.initial]
    · intro ev hev b round pair root hd
      obtain ⟨a, -, count, proof, hd'⟩ := recovers.rescues ev hev
      simp [hd] at hd'

/-- In every run, restarts included, in which the secrets of a round's admitted orders are held until the
inputs of its folds are built, each logged input root is the one that the log gives for the orders of the
pair that rested when the round of the batch was executed. -/
theorem run_input_roots (hrun : Transition.run System.step (initial env) moves = some σ)
    (hheld : Transition.Meets System.step HoldsAdmitted (initial env) moves) :
    ∀ ev ∈ σ.log, ∀ b round pair root, ev.data = .batchFolded b round pair root → RootedAt env moves σ.log b pair root := by
  have hmem : Transition.Meets System.step (fun _ m => m ∈ moves) (initial env) moves :=
    Transition.meets_of_mem (fun _ hm => hm)
  have h : Rooted moves σ := Transition.run_invariant (fun _ _ _ hs hc hstep => hs.step hc.1 hc.2 hstep)
    (rooted_initial env moves) (hmem.and hheld) hrun
  exact h.folded

end System

end Runs

namespace Scenario

/-- As before, with a third order that rests below the price of the other two, and a hash of two that
tells its inputs apart. -/
def watched : Env :=
  { env with
    decrypt := fun ciphertext =>
      match ciphertext with
      | [3] => some { plaintext 3 .buy 3 with price := 5 }
      | _ => env.decrypt ciphertext
    poseidon := fun xs =>
      match xs with
      | [a, b] => (a.val + 2 * b.val : Nat)
      | _ => env.poseidon xs }

def placingThird : List Action :=
  [.placeOrder [3] [] 3, .prepareOrder 0 13 now (some (50, 0)), .persistOrder 0 0 true]

/-- The third order is cancelled after the round and before its fold. -/
def cancellingThird : List Action := [.cancelOrder 13 none now 0 true, .dropSecret 1, .dropSecret 1]

def cancelledEarly : List Move :=
  (placing ++ placingThird ++ matching ++ cancellingThird ++ folding.take 5).map .op

/-- The round is folded and the fold logged. -/
def foldingOnce : List Move := (placing ++ matching ++ folding.take 5).map .op

def isExecuted (ev : Event) : Bool :=
  match ev.data with
  | .auctionExecuted 21 "ETH-USDC" _ _ _ _ => true
  | _ => false

/-- The root that the event logs for batch 31. -/
def foldedRoot (ev : Event) : Option Bytes :=
  match ev.data with
  | .batchFolded 31 1 "ETH-USDC" root => some root
  | _ => none

theorem of_isExecuted {ev : Event} (h : isExecuted ev = true) :
    ∃ price volume count ts, ev.data = .auctionExecuted 21 "ETH-USDC" price volume count ts := by
  unfold isExecuted at h
  split at h
  next price volume count ts hd => exact ⟨price, volume, count, ts, hd⟩
  next => simp at h

theorem of_foldedRoot {ev : Event} {root : Bytes} (h : foldedRoot ev = some root) :
    ev.data = .batchFolded 31 1 "ETH-USDC" root := by
  unfold foldedRoot at h
  split at h
  next root' hd =>
    cases Option.some.inj h
    exact hd
  next => simp at h

end Scenario

open Scenario in
/-- The batch of auction 21 is folded with a root that the log does not give for the orders that rested. -/
theorem input_root_unexpected :
    ∃ σ, Transition.run System.step (System.initial watched) cancelledEarly = some σ ∧ Draws cancelledEarly 31 21 ∧
      ∃ before ev after root, σ.log = before ++ ev :: after ∧
        (∃ price volume count ts, ev.data = .auctionExecuted 21 "ETH-USDC" price volume count ts) ∧
        (∃ e ∈ after, e.data = .batchFolded 31 1 "ETH-USDC" root) ∧ expectedRoot watched before "ETH-USDC" ≠ some root := by
  have hrun : (Transition.run System.step (System.initial watched) cancelledEarly).any (fun σ =>
      (σ.log[4]?).any isExecuted && (σ.log.drop 5).any (fun e => (foldedRoot e).any (fun root =>
        decide (expectedRoot watched (σ.log.take 4) "ETH-USDC" ≠ some root)))) = true := by decide +kernel
  obtain ⟨σ, hσ, hcheck⟩ := (Option.any_eq_true _ _).mp hrun
  obtain ⟨hexec, hfold⟩ := Bool.and_eq_true_iff.mp hcheck
  obtain ⟨ev, hev, hdata⟩ := (Option.any_eq_true _ _).mp hexec
  obtain ⟨e, he, hroot⟩ := List.any_eq_true.mp hfold
  obtain ⟨root, hr, hne⟩ := (Option.any_eq_true _ _).mp hroot
  obtain ⟨hlt, rfl⟩ := List.getElem?_eq_some_iff.mp hev
  refine ⟨σ, hσ, ⟨[31], 0, true, by simp [cancelledEarly, matching], List.mem_cons_self⟩,
    σ.log.take 4, σ.log[4], σ.log.drop 5, root, ?_, of_isExecuted hdata, ⟨e, he, of_foldedRoot hr⟩, of_decide_eq_true hne⟩
  rw [← List.drop_eq_getElem_cons hlt, List.take_append_drop]

open Scenario in
theorem run_input_roots_folded :
    ∃ σ, Transition.run System.step (System.initial Scenario.env) foldingOnce = some σ ∧
      ∃ ev ∈ σ.log, ∃ root, ev.data = .batchFolded 31 1 "ETH-USDC" root ∧
        RootedAt Scenario.env foldingOnce σ.log 31 "ETH-USDC" root := by
  have hrun : (Transition.run System.step (System.initial Scenario.env) foldingOnce).any (fun σ =>
      σ.log.any (fun e => (foldedRoot e).isSome)) = true := by decide +kernel
  have hheld : Transition.Meets System.step System.HoldsAdmitted (System.initial Scenario.env) foldingOnce := by
    decide +kernel
  obtain ⟨σ, hσ, hlog⟩ := (Option.any_eq_true _ _).mp hrun
  obtain ⟨ev, hev, hsome⟩ := List.any_eq_true.mp hlog
  obtain ⟨root, hroot⟩ := Option.isSome_iff_exists.mp hsome
  exact ⟨σ, hσ, ev, hev, root, of_foldedRoot hroot,
    System.run_input_roots hσ hheld ev hev 31 1 "ETH-USDC" root (of_foldedRoot hroot)⟩

end DarkPool
