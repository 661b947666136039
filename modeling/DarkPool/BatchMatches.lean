import DarkPool.SettlementEffect
import DarkPool.BalanceOracle

namespace DarkPool

/-- What `submitBatch` checks besides the number of the matches. -/
structure Pool.AdmitsBatch (d : Deployment) (p : Pool) (sender : Address) (batchId auctionId : Bytes32) (proof : Bytes)
    (publicInputs : Vector Nat 6) : Prop where
  operator : p.operators sender = true
  running : p.paused = false
  newBatch : p.settledBatch (d.domainId "batch" batchId) = false
  newAuction : p.settledAuction (d.domainId "auction" auctionId) = false
  count : 0 < publicInputs.get 0 ∧ publicInputs.get 0 ≤ maxBatchSize
  proofLength : proof.length = 256
  minSize : publicInputs.get 3 = p.minSize
  minPrice : publicInputs.get 4 = p.minPrice
  positionLimit : publicInputs.get 5 = p.positionLimit
  verified : d.verifyProof proof publicInputs = true

variable {d : Deployment} {p p' : Pool} {a t : Address}

theorem submitBatch_eq_ok {sender : Address} {batchId auctionId : Bytes32} {proof : Bytes}
    {publicInputs : Vector Nat 6} {ms : List SolMatch} :
    submitBatch d p sender batchId auctionId proof publicInputs ms = .ok p' ↔
      p.AdmitsBatch d sender batchId auctionId proof publicInputs ∧ publicInputs.get 0 = ms.length ∧
      settleMatches d (p.markBatch (d.domainId "batch" batchId) (d.domainId "auction" auctionId)) ms = .ok p' := by
  simp only [submitBatch, onlyOperator, whenNotPaused, bind_eq_ok, require_eq_ok]
  constructor
  · rintro ⟨_, h1, _, h2, _, h3, _, h4, _, h5, _, h6, _, h7, _, h8, _, h9, _, h10, _, h11, h⟩
    exact ⟨⟨h1, h2, h3, h4, h7 ▸ h5, h6, h8, h9, h10, h11⟩, h7, h⟩
  · rintro ⟨⟨h1, h2, h3, h4, h5, h6, h8, h9, h10, h11⟩, h7, h⟩
    exact ⟨(), h1, (), h2, (), h3, (), h4, (), h7 ▸ h5, (), h6, (), h7, (), h8, (), h9, (), h10, (), h11, h⟩

/-- Every balance is a `uint256` together with the collateral of its account. -/
def Pool.Fits (p : Pool) : Prop := ∀ a t, p.balances a t + p.reserved a t < 2 ^ 256

section SelfTransfer

theorem Pool.credit_ok {n : Nat} (h : p.balances a t + n < 2 ^ 256) : ∃ p', p.credit a t n = .ok p' :=
  ⟨_, bind_eq_ok.mpr ⟨_, checked_eq_ok.mpr ⟨h, rfl⟩, rfl⟩⟩

theorem Pool.consumeReserved_ok {n : Nat} (h : n ≤ p.reserved a t) : ∃ p', p.consumeReserved a t n = .ok p' := by
  unfold consumeReserved
  suffices hretire : ∃ p', (p.withReserved a t (p.reserved a t - n)).retirePending a t (p.reserved a t) n = .ok p' by
    obtain ⟨p', hp'⟩ := hretire
    exact ⟨p', bind_eq_ok.mpr ⟨_, checkedSub_eq_ok.mpr ⟨h, rfl⟩, hp'⟩⟩
  unfold retirePending
  simp only
  generalize (p.withReserved a t (p.reserved a t - n)).pendingUnreserve a t = pending
  have hfree : (if pending < p.reserved a t then p.reserved a t - pending else 0) = p.reserved a t - pending := by
    split <;> omega
  rw [hfree]
  split
  next => exact ⟨_, rfl⟩
  next =>
    split
    next => exact ⟨_, bind_eq_ok.mpr ⟨_, checkedSub_eq_ok.mpr ⟨by omega, rfl⟩, rfl⟩⟩
    next => exact ⟨_, rfl⟩

/-- An account that sells to itself at price zero moves the amount from its collateral to its balance. -/
def selfTransfer (a t : Address) (size : Nat) : SolMatch := ⟨0, 0, a, a, t, t, 0, size⟩

theorem legs_selfTransfer {size : Nat} (hpow : 10 ^ (d.decimals t).toNat < 2 ^ 256)
    (hsize : size * 10 ^ (d.decimals t).toNat < 2 ^ 256) :
    legs d (selfTransfer a t size) = .ok ⟨size * 10 ^ (d.decimals t).toNat / 10 ^ 18, 0, 0⟩ := by
  unfold legs selfTransfer
  dsimp only
  refine bind_eq_ok.mpr ⟨_, checked_eq_ok.mpr ⟨hpow, rfl⟩, bind_eq_ok.mpr ⟨_, checked_eq_ok.mpr ⟨hsize, rfl⟩,
    bind_eq_ok.mpr ⟨_, checked_eq_ok.mpr ⟨hpow, rfl⟩, bind_eq_ok.mpr ⟨0, checked_eq_ok.mpr ⟨?_, ?_⟩,
    bind_eq_ok.mpr ⟨0, checked_eq_ok.mpr ⟨?_, ?_⟩, bind_eq_ok.mpr ⟨0, checked_eq_ok.mpr ⟨?_, ?_⟩, ?_⟩⟩⟩⟩⟩⟩
  all_goals simp [pure, Except.pure]

/-- An account that pays what it receives keeps its total. -/
theorem Pool.Fits.of_pays (hp : p.Fits) {n : Address → Address → Nat}
    (hpays : ∀ a t, p.Pays p' a t (n a t) (n a t)) : p'.Fits := by
  intro a t
  obtain ⟨hle, hr, -, hb⟩ := hpays a t
  have hfits := hp a t
  omega

/-- The transfer goes through if the collateral suffices, and every account keeps its total. -/
theorem settleMatch_selfTransfer (size : Nat) (hp : p.Fits) (hpow : 10 ^ (d.decimals t).toNat < 2 ^ 256)
    (hsize : size * 10 ^ (d.decimals t).toNat < 2 ^ 256)
    (hle : size * 10 ^ (d.decimals t).toNat / 10 ^ 18 ≤ p.reserved a t) :
    ∃ p', settleMatch d p (selfTransfer a t size) = .ok p' ∧ p'.Fits := by
  have hl := legs_selfTransfer (d := d) (a := a) hpow hsize
  generalize size * 10 ^ (d.decimals t).toNat / 10 ^ 18 = amount at hl hle
  have hfits := hp a t
  -- Nothing is paid in the quote token, so the first debit is empty.
  obtain ⟨p1, h1⟩ := Pool.consumeReserved_ok (p := p) (a := a) (t := t) (n := 0) (Nat.zero_le _)
  have e1 := Pool.consumeReserved_pays h1
  simp only [ite_self] at e1
  obtain ⟨p2, h2⟩ := Pool.credit_ok (p := p1) (a := a) (t := t) (n := amount) (by rw [(e1 a t).balances]; omega)
  have e2 := fun a' t' => (e1 a' t').trans (Pool.credit_pays h2 a' t')
  obtain ⟨p3, h3⟩ := Pool.consumeReserved_ok (p := p2) (a := a) (t := t) (n := amount) (by rw [(e2 a t).reserved]; omega)
  have e3 := fun a' t' => (e2 a' t').trans (Pool.consumeReserved_pays h3 a' t')
  simp only [Nat.zero_add, Nat.add_zero] at e3
  have hp3 : p3.Fits := hp.of_pays e3
  obtain ⟨p4, h4⟩ := Pool.credit_ok (p := p3) (a := a) (t := t) (n := 0) ((Nat.le_add_right _ _).trans_lt (hp3 a t))
  have e4 := Pool.credit_pays h4
  simp only [ite_self] at e4
  have hp4 : p4.Fits := hp3.of_pays e4
  obtain ⟨p5, h5⟩ := Pool.credit_ok (p := p4) (a := p4.feeRecipient) (t := t) (n := 0)
    ((Nat.le_add_right _ _).trans_lt (hp4 _ t))
  have e5 := Pool.credit_pays h5
  simp only [ite_self] at e5
  refine ⟨p5, ?_, hp4.of_pays e5⟩
  unfold settleMatch
  exact bind_eq_ok.mpr ⟨_, hl, bind_eq_ok.mpr ⟨_, checkedSub_eq_ok.mpr ⟨le_rfl, rfl⟩, bind_eq_ok.mpr ⟨p1, h1,
    bind_eq_ok.mpr ⟨p2, h2, bind_eq_ok.mpr ⟨p3, h3, bind_eq_ok.mpr ⟨p4, h4, h5⟩⟩⟩⟩⟩⟩

/-- Transfers of nothing go through, and fill up a batch to any number of matches. -/
theorem settleMatches_selfTransfer_zero (hp : p.Fits) (hpow : 10 ^ (d.decimals t).toNat < 2 ^ 256) (n : Nat) :
    ∃ p', settleMatches d p (List.replicate n (selfTransfer a t 0)) = .ok p' := by
  induction n generalizing p with
  | zero => exact ⟨p, rfl⟩
  | succ n ih =>
    obtain ⟨p1, h1, hp1⟩ := settleMatch_selfTransfer (a := a) 0 hp hpow (by simp) (by simp)
    obtain ⟨p', hp'⟩ := ih hp1
    exact ⟨p', bind_eq_ok.mpr ⟨p1, h1, hp'⟩⟩

theorem debit_selfTransfer {size : Nat} (hpow : 10 ^ (d.decimals t).toNat < 2 ^ 256)
    (hsize : size * 10 ^ (d.decimals t).toNat < 2 ^ 256) :
    debit d (selfTransfer a t size) a t = size * 10 ^ (d.decimals t).toNat / 10 ^ 18 := by
  simp only [debit, amounts_of_legs (legs_selfTransfer (a := a) hpow hsize)]
  simp [selfTransfer]

end SelfTransfer

section Smallest

/-- An amount below the smallest that can move is zero. -/
theorem amount_eq_zero {q k : Nat} (h : q * 10 ^ k / 10 ^ 18 < 10 ^ (k - 18)) : q * 10 ^ k / 10 ^ 18 = 0 := by
  by_cases hk : k ≤ 18
  · rw [Nat.sub_eq_zero_of_le hk, pow_zero] at h
    omega
  · have hsplit : 10 ^ k = 10 ^ (k - 18) * 10 ^ 18 := by rw [← pow_add, Nat.sub_add_cancel (by omega)]
    rw [hsplit, ← Nat.mul_assoc, Nat.mul_div_cancel _ (by positivity)] at h ⊢
    have hq : q = 0 := by
      by_contra hne
      exact absurd h (Nat.not_lt.mpr (Nat.le_mul_of_pos_left _ (Nat.pos_of_ne_zero hne)))
    rw [hq, Nat.zero_mul]

/-- The smallest amount that can move of a token with `k` decimals. -/
theorem smallest_amount (k : Nat) : 10 ^ (18 - k) * 10 ^ k / 10 ^ 18 = 10 ^ (k - 18) := by
  rw [← pow_add, Nat.pow_div (by omega) (by norm_num)]
  congr 1
  omega

theorem smallest_fits {k : Nat} (hk : 10 ^ k < 2 ^ 256) : 10 ^ (18 - k) * 10 ^ k < 2 ^ 256 := by
  by_cases h : k ≤ 18
  · rw [← pow_add, Nat.sub_add_cancel h]
    norm_num
  · rw [Nat.sub_eq_zero_of_le (by omega), pow_zero, Nat.one_mul]
    exact hk

theorem legs_eq_ok {m : SolMatch} {l : Legs} (h : legs d m = .ok l) :
    10 ^ (d.decimals m.baseToken).toNat < 2 ^ 256 ∧ 10 ^ (d.decimals m.quoteToken).toNat < 2 ^ 256 ∧
      l.baseAmount = m.size * 10 ^ (d.decimals m.baseToken).toNat / 10 ^ 18 ∧
      l.notional = m.price * m.size / 10 ^ 18 * 10 ^ (d.decimals m.quoteToken).toNat / 10 ^ 18 ∧
      l.fee = l.notional * protocolFeeBps / bpsDenominator := by
  simp only [legs, bind_eq_ok, checked_eq_ok] at h
  obtain ⟨_, ⟨hbase, rfl⟩, _, ⟨-, rfl⟩, _, ⟨hquote, rfl⟩, _, ⟨-, rfl⟩, _, ⟨-, rfl⟩, _, ⟨-, rfl⟩, h⟩ := h
  cases Except.ok.inj h
  exact ⟨hbase, hquote, rfl, rfl, rfl⟩

/-- No account has as much collateral as the smallest amount of its token that can move. -/
def Pool.Unmovable (d : Deployment) (p : Pool) : Prop :=
  ∀ a t, 10 ^ (d.decimals t).toNat < 2 ^ 256 → p.reserved a t < 10 ^ ((d.decimals t).toNat - 18)

theorem settleMatch_unmovable {m : SolMatch} (hp : p.Unmovable d) (h : settleMatch d p m = .ok p') (a t : Address) :
    p'.reserved a t = p.reserved a t ∧ p'.balances a t = p.balances a t := by
  have hlegs := h
  unfold settleMatch at hlegs
  obtain ⟨l, hl, -⟩ := bind_eq_ok.mp hlegs
  obtain ⟨hbase, hquote, hb, hn, hf⟩ := legs_eq_ok hl
  have hpays := settleMatch_pays h
  have hask := (hpays m.askTrader m.baseToken).le
  have hbid := (hpays m.bidTrader m.quoteToken).le
  simp only [debit, amounts_of_legs hl, and_self, if_true] at hask hbid
  have hb0 : l.baseAmount = 0 := by
    rw [hb]
    refine amount_eq_zero (lt_of_le_of_lt ?_ (hp m.askTrader m.baseToken hbase))
    rw [← hb]
    omega
  have hn0 : l.notional = 0 := by
    rw [hn]
    refine amount_eq_zero (lt_of_le_of_lt ?_ (hp m.bidTrader m.quoteToken hquote))
    rw [← hn]
    omega
  have hf0 : l.fee = 0 := by rw [hf, hn0]; rfl
  obtain ⟨-, hr, -, hbal⟩ := hpays a t
  simp only [debit, receive, amounts_of_legs hl, hb0, hn0, hf0, Nat.sub_self, ite_self, Nat.add_zero, Nat.sub_zero] at hr hbal
  exact ⟨hr, hbal⟩

theorem settleMatches_unmovable {ms : List SolMatch} (hp : p.Unmovable d) (h : settleMatches d p ms = .ok p') :
    p'.reserved = p.reserved ∧ p'.balances = p.balances := by
  unfold settleMatches at h
  induction ms generalizing p with
  | nil =>
    cases Except.ok.inj h
    exact ⟨rfl, rfl⟩
  | cons m ms ih =>
    rw [List.foldlM_cons] at h
    obtain ⟨p1, h1, h⟩ := bind_eq_ok.mp h
    have hsame := settleMatch_unmovable hp h1
    have hr : p1.reserved = p.reserved := funext₂ fun a t => (hsame a t).1
    have hb : p1.balances = p.balances := funext₂ fun a t => (hsame a t).2
    have hp1 : p1.Unmovable d := fun a t hpow => hr ▸ hp a t hpow
    rw [← hr, ← hb]
    exact ih hp1 h

end Smallest

/-- If something can move, one proof settles a batch that moves it and one that moves nothing. -/
theorem exists_settling_apart (hp : p.Fits) (hpow : 10 ^ (d.decimals t).toNat < 2 ^ 256)
    (hle : 10 ^ ((d.decimals t).toNat - 18) ≤ p.reserved a t) {n : Nat} (hn : 0 < n) :
    ∃ ms ms' p1 p2, ms.length = n ∧ ms'.length = n ∧ settleMatches d p ms = .ok p1 ∧ settleMatches d p ms' = .ok p2 ∧
      p1.reserved a t ≠ p2.reserved a t := by
  obtain ⟨k, rfl⟩ : ∃ k, n = k + 1 := ⟨n - 1, by omega⟩
  have hfits := smallest_fits hpow
  obtain ⟨q, hq, hqfits⟩ := settleMatch_selfTransfer (a := a) _ hp hpow hfits (by rw [smallest_amount]; exact hle)
  obtain ⟨p1, h1⟩ := settleMatches_selfTransfer_zero (a := a) hqfits hpow k
  obtain ⟨p2, h2⟩ := settleMatches_selfTransfer_zero (a := a) hp hpow (k + 1)
  have hmoved : settleMatches d p (selfTransfer a t (10 ^ (18 - (d.decimals t).toNat)) ::
      List.replicate k (selfTransfer a t 0)) = .ok p1 := bind_eq_ok.mpr ⟨q, hq, h1⟩
  refine ⟨_, _, p1, p2, by simp, List.length_replicate, hmoved, h2, ?_⟩
  have hzero : debit d (selfTransfer a t 0) a t = 0 := by rw [debit_selfTransfer hpow (by simp)]; simp
  have hr1 := (settleMatches_pays hmoved a t).reserved
  have hr2 := (settleMatches_pays h2 a t).reserved
  simp only [debits, List.map_cons, List.map_replicate, List.sum_cons, List.sum_replicate, hzero, smul_zero, Nat.add_zero,
    Nat.sub_zero, debit_selfTransfer (a := a) hpow hfits, smallest_amount] at hr1 hr2
  have hpos : 0 < 10 ^ ((d.decimals t).toNat - 18) := by positivity
  omega

/-- A proof that `submitBatch` admits determines the settlement only if there is nothing to settle: the
matches are not among what is proved. -/
theorem submitBatch_determined_iff (d : Deployment) (owner feeRecipient : Address) (pubkey : Bytes) (deployedAt : Nat)
    (tokens : Address → Address → Nat) (htokens : ∀ t a, tokens t a < 2 ^ 256) (past : List (Address × Nat × Call))
    (c : Chain) (hc : c = Chain.run d ⟨Pool.initial owner feeRecipient pubkey deployedAt, tokens⟩ past)
    (sender : Address) (batchId auctionId : Bytes32) (proof : Bytes) (publicInputs : Vector Nat 6) :
    (∀ ms ms' p1 p2, submitBatch d c.pool sender batchId auctionId proof publicInputs ms = .ok p1 →
      submitBatch d c.pool sender batchId auctionId proof publicInputs ms' = .ok p2 →
      p1.balances = p2.balances ∧ p1.reserved = p2.reserved) ↔
    ¬ c.pool.AdmitsBatch d sender batchId auctionId proof publicInputs ∨ c.pool.Unmovable d := by
  have hfits : c.pool.Fits := by
    subst hc
    exact Chain.books_lt (Chain.run_solvent d owner feeRecipient pubkey deployedAt tokens past).1
      (Chain.run_tokens_lt htokens past)
  constructor
  · intro hsame
    by_contra hcond
    obtain ⟨hadmits, hmovable⟩ := not_or.mp hcond
    rw [not_not] at hadmits
    simp only [Pool.Unmovable, not_forall, not_lt] at hmovable
    obtain ⟨a, t, hpow, hle⟩ := hmovable
    obtain ⟨ms, ms', p1, p2, hlen, hlen', h1, h2, hne⟩ := exists_settling_apart
      (p := c.pool.markBatch (d.domainId "batch" batchId) (d.domainId "auction" auctionId)) hfits hpow hle hadmits.count.1
    have heq := hsame ms ms' p1 p2 (submitBatch_eq_ok.mpr ⟨hadmits, hlen.symm, h1⟩)
      (submitBatch_eq_ok.mpr ⟨hadmits, hlen'.symm, h2⟩)
    exact hne (by rw [heq.2])
  · rintro (hno | hunmovable) ms ms' p1 p2 h1 h2
    · exact absurd (submitBatch_eq_ok.mp h1).1 hno
    · obtain ⟨hr, hb⟩ := settleMatches_unmovable (p := c.pool.markBatch _ _) hunmovable (submitBatch_eq_ok.mp h1).2.2
      obtain ⟨hr', hb'⟩ := settleMatches_unmovable (p := c.pool.markBatch _ _) hunmovable (submitBatch_eq_ok.mp h2).2.2
      exact ⟨hb.trans hb'.symm, hr.trans hr'.symm⟩

open Onchain in
/-- One proof settles two batches of one match that do not agree. -/
theorem submitBatch_undetermined :
    ∃ p1 p2, submitBatch deployment (start.run deployment setup).pool 4 21 31 (List.replicate 256 0) #v[1, 0, 0, 0, 0, 0]
        [selfMatch] = .ok p1 ∧
      submitBatch deployment (start.run deployment setup).pool 4 21 31 (List.replicate 256 0) #v[1, 0, 0, 0, 0, 0]
        [{ selfMatch with size := 2 * 10 ^ 18 }] = .ok p2 ∧ p1.reserved 6 3 ≠ p2.reserved 6 3 := by
  have h1 : (submitBatch deployment (start.run deployment setup).pool 4 21 31 (List.replicate 256 0) #v[1, 0, 0, 0, 0, 0]
      [selfMatch]).toOption.any (fun p => p.reserved 6 3 == 3 * 10 ^ 18) = true := by decide +kernel
  have h2 : (submitBatch deployment (start.run deployment setup).pool 4 21 31 (List.replicate 256 0) #v[1, 0, 0, 0, 0, 0]
      [{ selfMatch with size := 2 * 10 ^ 18 }]).toOption.any (fun p => p.reserved 6 3 == 10 ^ 18) = true := by
    decide +kernel
  obtain ⟨p1, hp1, hr1⟩ := exists_ok_of_any h1
  obtain ⟨p2, hp2, hr2⟩ := exists_ok_of_any h2
  refine ⟨p1, p2, hp1, hp2, ?_⟩
  rw [beq_iff_eq.mp hr1, beq_iff_eq.mp hr2]
  decide

open Onchain in
theorem submitBatch_determined_unfunded :
    ∃ p1 p2, submitBatch deployment (start.run deployment (setup.take 4)).pool 4 21 31 (List.replicate 256 0)
        #v[1, 0, 0, 0, 0, 0] [selfTransfer 6 3 0] = .ok p1 ∧
      submitBatch deployment (start.run deployment (setup.take 4)).pool 4 21 31 (List.replicate 256 0)
        #v[1, 0, 0, 0, 0, 0] [selfTransfer 7 8 0] = .ok p2 ∧ p1.balances = p2.balances ∧ p1.reserved = p2.reserved := by
  have htokens : ∀ t a, start.tokens t a < 2 ^ 256 := by
    intro t a
    unfold start
    dsimp only
    split <;> decide
  have h1 : (submitBatch deployment (start.run deployment (setup.take 4)).pool 4 21 31 (List.replicate 256 0)
      #v[1, 0, 0, 0, 0, 0] [selfTransfer 6 3 0]).toOption.isSome = true := by decide +kernel
  have h2 : (submitBatch deployment (start.run deployment (setup.take 4)).pool 4 21 31 (List.replicate 256 0)
      #v[1, 0, 0, 0, 0, 0] [selfTransfer 7 8 0]).toOption.isSome = true := by decide +kernel
  obtain ⟨p1, hp1⟩ := exists_ok_of_isSome h1
  obtain ⟨p2, hp2⟩ := exists_ok_of_isSome h2
  have hunmovable : (start.run deployment (setup.take 4)).pool.Unmovable deployment := fun a t _ => by
    show (0 : Nat) < _
    positivity
  exact ⟨p1, p2, hp1, hp2, (submitBatch_determined_iff deployment 2 6 [] 0 start.tokens htokens (setup.take 4) _ rfl 4 21 31
    (List.replicate 256 0) #v[1, 0, 0, 0, 0, 0]).mpr (.inr hunmovable) _ _ p1 p2 hp1 hp2⟩

end DarkPool
