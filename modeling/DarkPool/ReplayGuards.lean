import DarkPool.Lib.Attempts
import DarkPool.Submitter

namespace DarkPool

open Attempts

/-- The once-only flags and what is kept with them. -/
structure Pool.SameFlags (p p' : Pool) : Prop where
  settledBatch : p'.settledBatch = p.settledBatch
  settledAuction : p'.settledAuction = p.settledAuction
  sessionSubmitted : p'.sessionSubmitted = p.sessionSubmitted
  auctionToSession : p'.auctionToSession = p.auctionToSession
  sessionSettlementAcc : p'.sessionSettlementAcc = p.sessionSettlementAcc
  sessionSettled : p'.sessionSettled = p.sessionSettled

namespace Call

/-- What a call that succeeds records of its ids. -/
def mark (d : Deployment) (p : Pool) : Call → Pool
  | .submitBatch batchId auctionId _ _ _ => p.markBatch (d.domainId "batch" batchId) (d.domainId "auction" auctionId)
  | .submitSession s => p.markSession (d.domainId "session" s.sessionId) (s.zN.get zSettlement)
  | .settleAuction sessionId auctionId _ =>
    p.markAuction (d.domainId "auction" auctionId) (d.domainId "session" sessionId) sessionId
  | _ => p

/-- The batch that a call settles. -/
def settlesBatch : Call → Option Bytes32
  | .submitBatch batchId _ _ _ _ => some batchId
  | _ => none

/-- The auction that a call settles, on either arm. -/
def settlesAuction : Call → Option Bytes32
  | .submitBatch _ auctionId _ _ _ => some auctionId
  | .settleAuction _ auctionId _ => some auctionId
  | _ => none

/-- The session that a call submits. -/
def submitsSession : Call → Option Bytes32
  | .submitSession s => some s.sessionId
  | _ => none

/-- The session that a call settles. -/
def settlesSession : Call → Option Bytes32
  | .settleAuction sessionId _ _ => some sessionId
  | _ => none

end Call

namespace Chain

/-- A transaction as an attempt on the chain. -/
def attempt (d : Deployment) (c : Chain) (tx : Address × Nat × Call) : Except Revert Chain :=
  c.exec d tx.1 tx.2.1 tx.2.2

theorem run_eq_attempts (d : Deployment) (c : Chain) (txs : List (Address × Nat × Call)) :
    c.run d txs = Attempts.run (attempt d) c txs := by
  have hstep : Chain.step d = Attempts.step (attempt d) := by
    funext c tx
    unfold Chain.step Attempts.step attempt
    cases c.exec d tx.1 tx.2.1 tx.2.2 <;> rfl
  rw [Chain.run, Attempts.run, hstep]

/-- The calls that did not revert, in order. -/
def succeeded (d : Deployment) (c : Chain) (txs : List (Address × Nat × Call)) : List (Address × Nat × Call) :=
  accepted (attempt d) c txs

variable {d : Deployment} {c c' : Chain} {sender : Address} {now : Nat} {call : Call}

theorem exec_flags (h : c.exec d sender now call = .ok c') : (call.mark d c.pool).SameFlags c'.pool := by
  cases call with
  | deposit token amount approved =>
    simp only [exec, deposit, bind_eq_ok] at h
    obtain ⟨_, -, _, -, _, -, _, -, tokens, -, received, -, _, -, pool, hpool, h⟩ := h
    cases Except.ok.inj h
    rw [Pool.credit_frame hpool]
    exact ⟨rfl, rfl, rfl, rfl, rfl, rfl⟩
  | withdraw token amount =>
    simp only [exec, withdraw, bind_eq_ok] at h
    obtain ⟨_, -, _, -, _, -, free, -, tokens, -, h⟩ := h
    cases Except.ok.inj h
    exact ⟨rfl, rfl, rfl, rfl, rfl, rfl⟩
  | reserve token amount =>
    obtain ⟨p, hp, rfl⟩ := map_eq_ok.mp h
    simp only [Pool.reserve, bind_eq_ok] at hp
    obtain ⟨_, -, _, -, _, -, _, -, _, -, hp⟩ := hp
    cases Except.ok.inj hp
    exact ⟨rfl, rfl, rfl, rfl, rfl, rfl⟩
  | requestUnreserve token amount =>
    obtain ⟨p, hp, rfl⟩ := map_eq_ok.mp h
    simp only [Pool.requestUnreserve, bind_eq_ok] at hp
    obtain ⟨_, -, _, -, _, -, _, -, _, -, hp⟩ := hp
    cases Except.ok.inj hp
    exact ⟨rfl, rfl, rfl, rfl, rfl, rfl⟩
  | releaseUnreserve token =>
    obtain ⟨p, hp, rfl⟩ := map_eq_ok.mp h
    simp only [Pool.releaseUnreserve, bind_eq_ok] at hp
    obtain ⟨_, -, _, -, _, -, left, -, p1, h1, hp⟩ := hp
    cases Except.ok.inj hp
    rw [Pool.credit_frame h1]
    exact ⟨rfl, rfl, rfl, rfl, rfl, rfl⟩
  | submitBatch batchId auctionId proof publicInputs ms =>
    obtain ⟨p, hp, rfl⟩ := map_eq_ok.mp h
    rw [settleMatches_frame (submitBatch_settles hp)]
    exact ⟨rfl, rfl, rfl, rfl, rfl, rfl⟩
  | submitSession s =>
    obtain ⟨p, hp, rfl⟩ := map_eq_ok.mp h
    rw [(submitSession_eq_ok hp).2]
    exact ⟨rfl, rfl, rfl, rfl, rfl, rfl⟩
  | settleAuction sessionId auctionId ms =>
    obtain ⟨p, hp, rfl⟩ := map_eq_ok.mp h
    rw [settleMatches_frame (settleAuction_settles hp)]
    exact ⟨rfl, rfl, rfl, rfl, rfl, rfl⟩
  | tokenTransfer token recipient amount =>
    simp only [exec, bind_eq_ok] at h
    obtain ⟨_, -, tokens, -, h⟩ := h
    cases Except.ok.inj h
    exact ⟨rfl, rfl, rfl, rfl, rfl, rfl⟩
  | _ =>
    obtain ⟨p, hp, rfl⟩ := map_eq_ok.mp h
    have hbooks := Pool.adminCall_books hp
    exact ⟨hbooks.settledBatch, hbooks.settledAuction, hbooks.sessionSubmitted, hbooks.auctionToSession,
      hbooks.sessionSettlementAcc, hbooks.sessionSettled⟩

end Chain

section Latches

variable {d : Deployment} (hkeys : ∀ space, Function.Injective (d.domainId space))

include hkeys

/-- Setting the flag of one id sets no other. -/
theorem update_key_iff (space : String) (f : Bytes32 → Bool) (id k : Bytes32) :
    Function.update f (d.domainId space id) true (d.domainId space k) = true ↔
      f (d.domainId space k) = true ∨ some id = some k := by
  by_cases h : k = id
  · subst h
    simp
  · have hne : d.domainId space k ≠ d.domainId space id := fun he => h (hkeys space he)
    rw [Function.update_of_ne hne]
    simp [Ne.symm h]

theorem latch_batch : Latch (Chain.attempt d) (fun tx => tx.2.2.settlesBatch)
    (fun c id => c.pool.settledBatch (d.domainId "batch" id)) where
  guards := by
    rintro c ⟨sender, now, call⟩ c' id h hid
    cases call <;> simp only [Call.settlesBatch, reduceCtorEq] at hid
    obtain ⟨p, hp, -⟩ := map_eq_ok.mp h
    simp only [submitBatch, bind_eq_ok, require_eq_ok] at hp
    obtain ⟨_, -, _, -, _, hopen, -⟩ := hp
    exact Option.some.inj hid ▸ hopen
  sets := by
    rintro c ⟨sender, now, call⟩ c' id h
    rw [(Chain.exec_flags h).settledBatch]
    cases call with
    | submitBatch batchId auctionId proof publicInputs ms => exact update_key_iff hkeys "batch" _ batchId id
    | _ => exact (or_iff_left (Option.some_ne_none id).symm).symm

theorem latch_auction : Latch (Chain.attempt d) (fun tx => tx.2.2.settlesAuction)
    (fun c id => c.pool.settledAuction (d.domainId "auction" id)) where
  guards := by
    rintro c ⟨sender, now, call⟩ c' id h hid
    cases call with
    | submitBatch batchId auctionId proof publicInputs ms =>
      obtain ⟨p, hp, -⟩ := map_eq_ok.mp h
      simp only [submitBatch, bind_eq_ok, require_eq_ok] at hp
      obtain ⟨_, -, _, -, _, -, _, hopen, -⟩ := hp
      exact Option.some.inj hid ▸ hopen
    | settleAuction sessionId auctionId ms =>
      obtain ⟨p, hp, -⟩ := map_eq_ok.mp h
      exact Option.some.inj hid ▸ (settleAuction_guards hp).1
    | _ => cases hid
  sets := by
    rintro c ⟨sender, now, call⟩ c' id h
    rw [(Chain.exec_flags h).settledAuction]
    cases call with
    | submitBatch batchId auctionId proof publicInputs ms => exact update_key_iff hkeys "auction" _ auctionId id
    | settleAuction sessionId auctionId ms => exact update_key_iff hkeys "auction" _ auctionId id
    | _ => exact (or_iff_left (Option.some_ne_none id).symm).symm

theorem latch_submitted : Latch (Chain.attempt d) (fun tx => tx.2.2.submitsSession)
    (fun c id => c.pool.sessionSubmitted (d.domainId "session" id)) where
  guards := by
    rintro c ⟨sender, now, call⟩ c' id h hid
    cases call <;> simp only [Call.submitsSession, reduceCtorEq] at hid
    obtain ⟨p, hp, -⟩ := map_eq_ok.mp h
    exact Option.some.inj hid ▸ (submitSession_eq_ok hp).1
  sets := by
    rintro c ⟨sender, now, call⟩ c' id h
    rw [(Chain.exec_flags h).sessionSubmitted]
    cases call with
    | submitSession s => exact update_key_iff hkeys "session" _ s.sessionId id
    | _ => exact (or_iff_left (Option.some_ne_none id).symm).symm

theorem latch_session : Latch (Chain.attempt d) (fun tx => tx.2.2.settlesSession)
    (fun c id => c.pool.sessionSettled (d.domainId "session" id)) where
  guards := by
    rintro c ⟨sender, now, call⟩ c' id h hid
    cases call <;> simp only [Call.settlesSession, reduceCtorEq] at hid
    obtain ⟨p, hp, -⟩ := map_eq_ok.mp h
    simp only [settleAuction, bind_eq_ok, require_eq_ok] at hp
    obtain ⟨_, -, _, -, _, -, _, -, _, -, _, hopen, -⟩ := hp
    exact Option.some.inj hid ▸ hopen
  sets := by
    rintro c ⟨sender, now, call⟩ c' id h
    rw [(Chain.exec_flags h).sessionSettled]
    cases call with
    | settleAuction sessionId auctionId ms => exact update_key_iff hkeys "session" _ sessionId id
    | _ => exact (or_iff_left (Option.some_ne_none id).symm).symm

end Latches

/-- The reverts of a call that is taken for a replay. -/
def replayReverts : List Revert :=
  ["batch already settled", "auction already settled", "session already submitted", "session already settled",
   "auction bound to other session"]

theorem bind_eq_error {ε α β : Type} {x : Except ε α} {f : α → Except ε β} {e : ε} :
    (x >>= f) = .error e ↔ x = .error e ∨ ∃ a, x = .ok a ∧ f a = .error e := by
  cases x with
  | ok a => simp [bind, Except.bind]
  | error e => simp [bind, Except.bind]

theorem map_eq_error {ε α β : Type} {f : α → β} {x : Except ε α} {e : ε} : f <$> x = .error e ↔ x = .error e := by
  cases x <;> simp [Functor.map, Except.map]

theorem require_eq_error {cond : Prop} [Decidable cond] {reason e : Revert} :
    require cond reason = .error e ↔ ¬ cond ∧ reason = e := by
  unfold require
  split
  next h => simp [h]
  next h => simp [h]

/-- A call that reverts as a replay does so at its replay checks, whatever the others say. -/
theorem require_bind_replay {α : Type} {cond : Prop} [Decidable cond] {reason e : Revert} {x : Except Revert α}
    (hreason : reason ∉ replayReverts) (he : e ∈ replayReverts) (h : (do require cond reason; x) = .error e) :
    x = .error e := by
  rcases bind_eq_error.mp h with h | ⟨_, -, h⟩
  · exact absurd ((require_eq_error.mp h).2 ▸ he) hreason
  · exact h

section Errors

variable {d : Deployment} {p : Pool} {e : Revert}

/-- The arithmetic of a settlement reverts without a reason. -/
def Plain {α : Type} (x : Except Revert α) : Prop := ∀ e, x = .error e → e = ""

theorem Plain.bind {α β : Type} {x : Except Revert α} {f : α → Except Revert β} (hx : Plain x) (hf : ∀ a, Plain (f a)) :
    Plain (x >>= f) := by
  intro e h
  rcases bind_eq_error.mp h with h | ⟨a, -, h⟩
  · exact hx e h
  · exact hf a e h

theorem plain_pure {α : Type} (a : α) : Plain (pure a : Except Revert α) := nofun

theorem plain_checked (n : Nat) : Plain (checked n) := by
  unfold Plain checked
  split <;> simp

theorem plain_checkedSub (x y : Nat) : Plain (checkedSub x y) := by
  unfold Plain checkedSub
  split <;> simp

theorem plain_legs (d : Deployment) (m : SolMatch) : Plain (legs d m) :=
  (plain_checked _).bind fun _ => (plain_checked _).bind fun _ => (plain_checked _).bind fun _ =>
    (plain_checked _).bind fun _ => (plain_checked _).bind fun _ => (plain_checked _).bind fun _ => plain_pure _

theorem plain_credit (p : Pool) (a t : Address) (n : Nat) : Plain (p.credit a t n) :=
  (plain_checked _).bind fun _ => plain_pure _

theorem plain_consumeReserved (p : Pool) (a t : Address) (n : Nat) : Plain (p.consumeReserved a t n) := by
  refine (plain_checkedSub _ _).bind fun left => ?_
  unfold Pool.retirePending
  dsimp only
  generalize (if (p.withReserved a t left).pendingUnreserve a t < p.reserved a t then
    p.reserved a t - (p.withReserved a t left).pendingUnreserve a t else 0) = freeReserved
  split
  next => exact plain_pure _
  next =>
    split
    next => exact (plain_checkedSub _ _).bind fun _ => plain_pure _
    next => exact plain_pure _

theorem plain_settleMatch (d : Deployment) (p : Pool) (m : SolMatch) : Plain (settleMatch d p m) :=
  (plain_legs d m).bind fun _ => (plain_checkedSub _ _).bind fun _ => (plain_consumeReserved _ _ _ _).bind fun _ =>
    (plain_credit _ _ _ _).bind fun _ => (plain_consumeReserved _ _ _ _).bind fun _ =>
    (plain_credit _ _ _ _).bind fun _ => plain_credit _ _ _ _

theorem plain_settleMatches (d : Deployment) (p : Pool) (ms : List SolMatch) : Plain (settleMatches d p ms) := by
  unfold settleMatches
  induction ms generalizing p with
  | nil => exact plain_pure p
  | cons m ms ih =>
    rw [List.foldlM_cons]
    exact (plain_settleMatch d p m).bind ih

theorem Plain.not_replay {α : Type} {x : Except Revert α} (hx : Plain x) (he : e ∈ replayReverts) : x ≠ .error e := by
  intro h
  rw [hx e h] at he
  exact absurd he (by decide)

theorem settlementChain_not_replay (acc : Nat) (ms : List SolMatch) (he : e ∈ replayReverts) :
    settlementChain d acc ms ≠ .error e := by
  induction ms generalizing acc with
  | nil => exact nofun
  | cons m ms ih => exact fun h => ih _ (require_bind_replay (by decide) he h)

variable {sender : Address}

theorem submitBatch_replay {batchId auctionId : Bytes32} {proof : Bytes} {publicInputs : Vector Nat 6}
    {ms : List SolMatch} (he : e ∈ replayReverts)
    (h : submitBatch d p sender batchId auctionId proof publicInputs ms = .error e) :
    p.settledBatch (d.domainId "batch" batchId) = true ∨ p.settledAuction (d.domainId "auction" auctionId) = true := by
  unfold submitBatch onlyOperator whenNotPaused at h
  replace h := require_bind_replay (by decide) he (require_bind_replay (by decide) he h)
  rcases bind_eq_error.mp h with h | ⟨_, -, h⟩
  · exact .inl (by simpa using (require_eq_error.mp h).1)
  rcases bind_eq_error.mp h with h | ⟨_, -, h⟩
  · exact .inr (by simpa using (require_eq_error.mp h).1)
  iterate 7 replace h := require_bind_replay (by decide) he h
  exact absurd h ((plain_settleMatches d _ ms).not_replay he)

theorem submitSession_replay {s : Session} (he : e ∈ replayReverts) (h : submitSession d p sender s = .error e) :
    p.sessionSubmitted (d.domainId "session" s.sessionId) = true := by
  unfold submitSession onlyOperator whenNotPaused whenIvcEnabled at h
  iterate 3 replace h := require_bind_replay (by decide) he h
  rcases bind_eq_error.mp h with h | ⟨_, -, h⟩
  · simpa using (require_eq_error.mp h).1
  iterate 4 replace h := require_bind_replay (by decide) he h
  cases h

theorem settleAuction_replay {sessionId auctionId : Bytes32} {ms : List SolMatch} (he : e ∈ replayReverts)
    (hbound : p.auctionToSession (d.domainId "auction" auctionId) = 0 ∨
      p.settledAuction (d.domainId "auction" auctionId) = true)
    (h : settleAuction d p sender sessionId auctionId ms = .error e) :
    p.settledAuction (d.domainId "auction" auctionId) = true ∨
      p.sessionSettled (d.domainId "session" sessionId) = true := by
  unfold settleAuction onlyOperator whenNotPaused whenIvcEnabled at h
  iterate 4 replace h := require_bind_replay (by decide) he h
  rcases bind_eq_error.mp h with h | ⟨_, -, h⟩
  · exact .inl (by simpa using (require_eq_error.mp h).1)
  rcases bind_eq_error.mp h with h | ⟨_, -, h⟩
  · exact .inr (by simpa using (require_eq_error.mp h).1)
  rcases bind_eq_error.mp h with h | ⟨_, -, h⟩
  · exact .inl (hbound.resolve_left (fun hzero => (require_eq_error.mp h).1 (.inl hzero)))
  replace h := require_bind_replay (by decide) he h
  rcases bind_eq_error.mp h with h | ⟨_, -, h⟩
  · exact absurd h (settlementChain_not_replay _ ms he)
  replace h := require_bind_replay (by decide) he h
  exact absurd h ((plain_settleMatches d _ ms).not_replay he)

end Errors

namespace Chain

variable {d : Deployment} {c : Chain}

/-- An auction is bound to a session only by being settled. -/
theorem run_bound (hc : ∀ key, c.pool.auctionToSession key = 0 ∨ c.pool.settledAuction key = true)
    (txs : List (Address × Nat × Call)) (key : Bytes32) :
    (c.run d txs).pool.auctionToSession key = 0 ∨ (c.run d txs).pool.settledAuction key = true := by
  rw [run_eq_attempts]
  refine run_accepted (I := fun (c : Chain) _ => ∀ key, c.pool.auctionToSession key = 0 ∨ c.pool.settledAuction key = true)
    ?_ hc txs key
  rintro c - ⟨sender, now, call⟩ c' hc h key
  have hflags := exec_flags h
  rw [hflags.auctionToSession, hflags.settledAuction]
  cases call with
  | submitBatch batchId auctionId proof publicInputs ms =>
    refine (hc key).imp_right (fun hset => ?_)
    by_cases hkey : key = d.domainId "auction" auctionId <;> simp [Call.mark, Pool.markBatch, hkey, hset]
  | settleAuction sessionId auctionId ms =>
    by_cases hkey : key = d.domainId "auction" auctionId
    · exact .inr (by simp [Call.mark, Pool.markAuction, hkey])
    · simpa [Call.mark, Pool.markAuction, hkey] using hc key
  | _ => exact hc key

theorem countP_key_le_one {key : Call → Option Bytes32} {txs : List (Address × Nat × Call)}
    (h : txs.Pairwise (fun tx tx' => ∀ k, key tx.2.2 = some k → key tx'.2.2 ≠ some k)) (id : Bytes32) :
    txs.countP (fun tx => key tx.2.2 = some id) ≤ 1 :=
  countP_le_one (h.imp (fun hne hp => by simpa using hne id (by simpa using hp)))

/-- Each auction settles at most once over both arms, each batch and each session at most once; and a
call reverts as a replay only if an earlier one used its id for the same purpose. -/
theorem run_settles_once (d : Deployment) (hkeys : ∀ space, Function.Injective (d.domainId space))
    (owner feeRecipient : Address) (pubkey : Bytes) (deployedAt : Nat) (tokens : Address → Address → Nat)
    (txs : List (Address × Nat × Call)) (c : Chain)
    (hc : c = ⟨Pool.initial owner feeRecipient pubkey deployedAt, tokens⟩) :
    (∀ id, (c.succeeded d txs).countP (fun tx => tx.2.2.settlesAuction = some id) ≤ 1 ∧
      (c.succeeded d txs).countP (fun tx => tx.2.2.settlesBatch = some id) ≤ 1 ∧
      (c.succeeded d txs).countP (fun tx => tx.2.2.settlesSession = some id) ≤ 1) ∧
    (∀ sender now batchId auctionId proof publicInputs ms e, e ∈ replayReverts →
      (c.run d txs).exec d sender now (.submitBatch batchId auctionId proof publicInputs ms) = .error e →
      ∃ tx ∈ c.succeeded d txs, tx.2.2.settlesBatch = some batchId ∨ tx.2.2.settlesAuction = some auctionId) ∧
    (∀ sender now s e, e ∈ replayReverts → (c.run d txs).exec d sender now (.submitSession s) = .error e →
      ∃ tx ∈ c.succeeded d txs, tx.2.2.submitsSession = some s.sessionId) ∧
    ∀ sender now sessionId auctionId ms e, e ∈ replayReverts →
      (c.run d txs).exec d sender now (.settleAuction sessionId auctionId ms) = .error e →
      ∃ tx ∈ c.succeeded d txs, tx.2.2.settlesSession = some sessionId ∨ tx.2.2.settlesAuction = some auctionId := by
  obtain ⟨hbatch, hbatches⟩ := (latch_batch hkeys).history (s := c) (fun k => by rw [hc]; rfl) txs
  obtain ⟨hauction, hauctions⟩ := (latch_auction hkeys).history (s := c) (fun k => by rw [hc]; rfl) txs
  obtain ⟨hsubmitted, -⟩ := (latch_submitted hkeys).history (s := c) (fun k => by rw [hc]; rfl) txs
  obtain ⟨hsession, hsessions⟩ := (latch_session hkeys).history (s := c) (fun k => by rw [hc]; rfl) txs
  have hbound := run_bound (d := d) (c := c) (fun key => .inl (by rw [hc]; rfl)) txs
  rw [run_eq_attempts] at hbound ⊢
  refine ⟨fun id => ⟨countP_key_le_one hauctions id, countP_key_le_one hbatches id, countP_key_le_one hsessions id⟩,
    ?_, ?_, ?_⟩
  · intro sender now batchId auctionId proof publicInputs ms e he h
    rcases submitBatch_replay he (map_eq_error.mp h) with hset | hset
    · obtain ⟨tx, htx, hid⟩ := (hbatch batchId).mp hset
      exact ⟨tx, htx, .inl hid⟩
    · obtain ⟨tx, htx, hid⟩ := (hauction auctionId).mp hset
      exact ⟨tx, htx, .inr hid⟩
  · intro sender now s e he h
    exact (hsubmitted s.sessionId).mp (submitSession_replay he (map_eq_error.mp h))
  · intro sender now sessionId auctionId ms e he h
    rcases settleAuction_replay he (hbound _) (map_eq_error.mp h) with hset | hset
    · obtain ⟨tx, htx, hid⟩ := (hauction auctionId).mp hset
      exact ⟨tx, htx, .inr hid⟩
    · obtain ⟨tx, htx, hid⟩ := (hsession sessionId).mp hset
      exact ⟨tx, htx, .inl hid⟩

end Chain

namespace Onchain

/-- A session that proves the match of account 6 with itself. -/
def selfSession (sessionId : Bytes32) : Session :=
  ⟨sessionId, [], sessionStart, #v[0, 0, 0, (10 ^ 8) * 4 + 6 * 12 + 7 * 31, 0], 1, 0⟩

/-- A batch and a session under one id, each sent twice, and the auction of the batch on the other arm. -/
def replays : List (Address × Nat × Call) :=
  setup ++ [(4, 0, selfBatch), (4, 0, .submitSession (selfSession 21)), (4, 0, selfBatch),
    (4, 0, .settleAuction 21 31 [selfMatch]), (4, 0, .settleAuction 21 21 [selfMatch]),
    (4, 0, .settleAuction 21 32 [selfMatch])]

end Onchain

open Onchain in
theorem Chain.run_settles_once_replays :
    (start.succeeded deployment replays).length = setup.length + 3 ∧
    (start.succeeded deployment replays).countP (fun tx => tx.2.2.settlesAuction = some 31) = 1 ∧
    (start.succeeded deployment replays).countP (fun tx => tx.2.2.settlesSession = some 21) ≤ 1 :=
  ⟨by decide +kernel, by decide +kernel, ((Chain.run_settles_once deployment (fun _ _ _ h => h) 2 6 [] 0 start.tokens
    replays start rfl).1 21).2.2⟩

end DarkPool
