import DarkPool.Lib.Unbonding
import DarkPool.Solvency

namespace DarkPool

open Unbonding

/-- An account's collateral in a token. -/
def Pool.escrow (p : Pool) (a t : Address) : Account :=
  ⟨p.reserved a t, p.pendingUnreserve a t, p.unreserveReadyAt a t⟩

namespace Pool

variable {p p' : Pool} {a t : Address} {amount now : Nat} {sender token : Address}

theorem escrow_congr (hr : p'.reserved = p.reserved) (hp : p'.pendingUnreserve = p.pendingUnreserve)
    (ht : p'.unreserveReadyAt = p.unreserveReadyAt) : p'.escrow a t = p.escrow a t := by
  rw [escrow, escrow, hr, hp, ht]

theorem credit_escrow (h : p.credit sender token amount = .ok p') : p'.escrow a t = p.escrow a t := by
  obtain ⟨n, -, h⟩ := bind_eq_ok.mp h
  cases Except.ok.inj h
  rfl

/-- Only the collateral of the account in the token is touched. -/
theorem consumeReserved_other (h : p.consumeReserved sender token amount = .ok p') (hne : ¬ (a = sender ∧ t = token)) :
    p'.escrow a t = p.escrow a t := by
  obtain ⟨left, -, h⟩ := bind_eq_ok.mp h
  rcases retirePending_eq_ok h with rfl | ⟨n, rfl | rfl⟩ <;>
    simp [escrow, withReserved, withPending, withReadyAt, Ledger.put, hne]

theorem retirePending_escrow {r : Nat} (hr : p.pendingUnreserve a t ≤ r) (hle : amount ≤ r)
    (hleft : p.reserved a t = r - amount) (htimed : p.unreserveReadyAt a t = 0 ↔ p.pendingUnreserve a t = 0)
    (h : p.retirePending a t r amount = .ok p') :
    p'.escrow a t = (Account.mk r (p.pendingUnreserve a t) (p.unreserveReadyAt a t)).spend amount := by
  unfold retirePending at h
  simp only at h
  split at h
  next hzero =>
    cases Except.ok.inj h
    simp [escrow, Account.spend, hleft, hzero, htimed.mpr hzero]
  next hpos =>
    have hfree : (if p.pendingUnreserve a t < r then r - p.pendingUnreserve a t else 0) =
        r - p.pendingUnreserve a t := by split <;> omega
    rw [hfree] at h
    split at h
    next hreach =>
      -- The match reaches into the unbond, so all that is left unbonds.
      obtain ⟨newPending, hnew, h⟩ := bind_eq_ok.mp h
      obtain ⟨-, rfl⟩ := checkedSub_eq_ok.mp hnew
      have hrest : p.pendingUnreserve a t - (amount - (r - p.pendingUnreserve a t)) = r - amount := by omega
      have hmin : min (p.pendingUnreserve a t) (r - amount) = r - amount := by omega
      rw [hrest] at h
      cases Except.ok.inj h
      split
      next h0 => simp [escrow, withPending, withReadyAt, Ledger.put, Account.spend, hleft, h0]
      next h0 => simp [escrow, withPending, Ledger.put, Account.spend, hleft, hmin, h0]
    next hspare =>
      have hmin : min (p.pendingUnreserve a t) (r - amount) = p.pendingUnreserve a t := by omega
      cases Except.ok.inj h
      simp [escrow, Account.spend, hleft, hmin, hpos]

theorem consumeReserved_escrow (hp : (p.escrow a t).Sound) (h : p.consumeReserved a t amount = .ok p') :
    amount ≤ p.reserved a t ∧ p'.escrow a t = (p.escrow a t).spend amount := by
  obtain ⟨left, hleft, h⟩ := bind_eq_ok.mp h
  obtain ⟨hle, rfl⟩ := checkedSub_eq_ok.mp hleft
  have hput : (p.withReserved a t (p.reserved a t - amount)).reserved a t = p.reserved a t - amount := by
    simp [withReserved, Ledger.put]
  exact ⟨hle, retirePending_escrow (p := p.withReserved a t _) hp.covered hle hput hp.timed h⟩

/-- Between the two states the account's collateral was spent from, and nothing else. -/
def Spends (p p' : Pool) (a t : Address) : Prop :=
  ∃ n, n ≤ p.reserved a t ∧ p'.escrow a t = (p.escrow a t).spend n

theorem Spends.of_same (hp : (p.escrow a t).Sound) (h : p'.escrow a t = p.escrow a t) : p.Spends p' a t :=
  ⟨0, Nat.zero_le _, h.trans (Account.spend_zero hp).symm⟩

theorem Spends.sound (hp : (p.escrow a t).Sound) (h : p.Spends p' a t) : (p'.escrow a t).Sound := by
  obtain ⟨n, -, h⟩ := h
  rw [h]
  exact Account.spend_sound hp n

theorem Spends.trans {p'' : Pool} (h : p.Spends p' a t) (h' : p'.Spends p'' a t) : p.Spends p'' a t := by
  obtain ⟨m, hm, he⟩ := h
  obtain ⟨n, hn, he'⟩ := h'
  have hleft : p'.reserved a t = p.reserved a t - m := congrArg Account.locked he
  refine ⟨m + n, by omega, ?_⟩
  rw [he', he, Account.spend_spend]

theorem consumeReserved_spends (hp : (p.escrow a t).Sound) (h : p.consumeReserved sender token amount = .ok p') :
    p.Spends p' a t := by
  by_cases heq : a = sender ∧ t = token
  · obtain ⟨rfl, rfl⟩ := heq
    exact ⟨amount, consumeReserved_escrow hp h⟩
  · exact .of_same hp (consumeReserved_other h heq)

end Pool

variable {d : Deployment} {p p' : Pool} {a t : Address}

theorem settleMatch_spends {m : SolMatch} (hp : (p.escrow a t).Sound) (h : settleMatch d p m = .ok p') :
    p.Spends p' a t := by
  unfold settleMatch at h
  obtain ⟨l, -, h⟩ := bind_eq_ok.mp h
  obtain ⟨askReceives, -, h⟩ := bind_eq_ok.mp h
  obtain ⟨p1, h1, h⟩ := bind_eq_ok.mp h
  obtain ⟨p2, h2, h⟩ := bind_eq_ok.mp h
  obtain ⟨p3, h3, h⟩ := bind_eq_ok.mp h
  obtain ⟨p4, h4, h5⟩ := bind_eq_ok.mp h
  have hbid := Pool.consumeReserved_spends hp h1
  have hbid' := hbid.trans (.of_same (hbid.sound hp) (Pool.credit_escrow h2))
  have hask := hbid'.trans (Pool.consumeReserved_spends (hbid'.sound hp) h3)
  exact hask.trans (.of_same (hask.sound hp) ((Pool.credit_escrow h5).trans (Pool.credit_escrow h4)))

theorem settleMatches_spends {ms : List SolMatch} (hp : (p.escrow a t).Sound) (h : settleMatches d p ms = .ok p') :
    p.Spends p' a t := by
  unfold settleMatches at h
  induction ms generalizing p with
  | nil =>
    cases Except.ok.inj h
    exact .of_same hp rfl
  | cons m ms ih =>
    rw [List.foldlM_cons] at h
    obtain ⟨p1, h1, h⟩ := bind_eq_ok.mp h
    have hhead := settleMatch_spends hp h1
    exact hhead.trans (ih (hhead.sound hp) h)

namespace Chain

variable (d) (a t)

/-- What a transaction moves from `reserved` back to the free balance of the account. -/
def releasedBy (c : Chain) (tx : Address × Nat × Call) : Nat :=
  match tx.2.2 with
  | .releaseUnreserve _ => c.pool.reserved a t - (c.step d tx).pool.reserved a t
  | _ => 0

/-- What a transaction takes out of `reserved` by settling matches. -/
def consumedBy (c : Chain) (tx : Address × Nat × Call) : Nat :=
  match tx.2.2 with
  | .submitBatch _ _ _ _ _ | .settleAuction _ _ _ => c.pool.reserved a t - (c.step d tx).pool.reserved a t
  | _ => 0

/-- The sum of a quantity over the transactions of a run. -/
def along (f : Chain → Address × Nat × Call → Nat) : Chain → List (Address × Nat × Call) → Nat
  | _, [] => 0
  | c, tx :: txs => f c tx + along f (c.step d tx) txs

def released : Chain → List (Address × Nat × Call) → Nat := along d (releasedBy d a t)

def consumed : Chain → List (Address × Nat × Call) → Nat := along d (consumedBy d a t)

end Chain

namespace Pool

variable {amount now : Nat} {sender token : Address}

theorem reserve_step (h : p.reserve sender token amount = .ok p') :
    Step unreserveDelay now (sender = a) (p.escrow a t) (p'.escrow a t) 0 0 := by
  simp only [reserve, bind_eq_ok, require_eq_ok] at h
  obtain ⟨_, -, _, -, _, -, free, -, locked, hlocked, h⟩ := h
  obtain ⟨-, rfl⟩ := checked_eq_ok.mp hlocked
  cases Except.ok.inj h
  by_cases heq : a = sender ∧ t = token
  · obtain ⟨rfl, rfl⟩ := heq
    have hesc : ((p.withBalance a t free).withReserved a t (p.reserved a t + amount)).escrow a t =
        { p.escrow a t with locked := (p.escrow a t).locked + amount } := by
      simp [escrow, withReserved, withBalance, Ledger.put]
    rw [hesc]
    exact .lock _ amount
  · have hesc : ((p.withBalance sender token free).withReserved sender token (p.reserved sender token + amount)).escrow a t =
        p.escrow a t := by simp [escrow, withReserved, withBalance, Ledger.put, heq]
    rw [hesc]
    exact .idle _

theorem requestUnreserve_step (h : p.requestUnreserve sender now token amount = .ok p') :
    Step unreserveDelay now (sender = a) (p.escrow a t) (p'.escrow a t) 0 0 := by
  simp only [requestUnreserve, bind_eq_ok, require_eq_ok] at h
  obtain ⟨_, -, _, hpos, _, havail, newPending, hnew, readyAt, hready, h⟩ := h
  obtain ⟨-, rfl⟩ := checked_eq_ok.mp hnew
  obtain ⟨-, rfl⟩ := checked_eq_ok.mp hready
  cases Except.ok.inj h
  by_cases heq : a = sender ∧ t = token
  · obtain ⟨rfl, rfl⟩ := heq
    have hesc : ((p.withPending a t (p.pendingUnreserve a t + amount)).withReadyAt a t (now + unreserveDelay)).escrow a t =
        ⟨(p.escrow a t).locked, (p.escrow a t).pending + amount, now + unreserveDelay⟩ := by
      simp [escrow, withPending, withReadyAt, Ledger.put]
    rw [hesc]
    refine .request _ amount rfl hpos ?_
    show p.pendingUnreserve a t + amount ≤ p.reserved a t
    split at havail <;> omega
  · have hesc : ((p.withPending sender token (p.pendingUnreserve sender token + amount)).withReadyAt sender token
        (now + unreserveDelay)).escrow a t = p.escrow a t := by
      simp [escrow, withPending, withReadyAt, Ledger.put, heq]
    rw [hesc]
    exact .idle _

theorem releaseUnreserve_step (hp : (p.escrow a t).Sound) (h : p.releaseUnreserve sender now token = .ok p') :
    Step unreserveDelay now (sender = a) (p.escrow a t) (p'.escrow a t) (p.reserved a t - p'.reserved a t) 0 := by
  simp only [releaseUnreserve, bind_eq_ok, require_eq_ok] at h
  obtain ⟨_, -, _, hpos, _, hready, left, hleft, p1, h1, h⟩ := h
  obtain ⟨-, hleft⟩ := checkedSub_eq_ok.mp hleft
  obtain ⟨n, -, h1⟩ := bind_eq_ok.mp h1
  cases Except.ok.inj h1
  cases Except.ok.inj h
  by_cases heq : a = sender ∧ t = token
  · obtain ⟨rfl, rfl⟩ := heq
    have hcov : p.pendingUnreserve a t ≤ p.reserved a t := hp.covered
    rw [if_pos hcov] at hleft
    subst hleft
    have hstep : Step unreserveDelay now (a = a) (p.escrow a t) ⟨p.reserved a t - p.pendingUnreserve a t, 0, 0⟩
        (p.pendingUnreserve a t) 0 := .release (p.escrow a t) rfl hready hcov
    simpa [escrow, withPending, withReadyAt, withReserved, withBalance, Ledger.put, Nat.sub_sub_self hcov] using hstep
  · simp only [escrow, withPending, withReadyAt, withReserved, withBalance, Ledger.put, if_neg heq, Nat.sub_self]
    exact .idle _

end Pool

namespace Chain

variable {c c' : Chain} {sender : Address} {now : Nat} {call : Call}

theorem step_of_ok (h : c.exec d sender now call = .ok c') : c.step d (sender, now, call) = c' := by
  simp only [step, h]

/-- A transaction that settles spends collateral. -/
theorem settles_step {ms : List SolMatch} (h : settleMatches d p ms = .ok p') (hc : (c.pool.escrow a t).Sound)
    (hp : p.escrow a t = c.pool.escrow a t) :
    Step unreserveDelay now (sender = a) (c.pool.escrow a t) (p'.escrow a t) 0
      (c.pool.reserved a t - p'.reserved a t) := by
  obtain ⟨n, hn, he⟩ := settleMatches_spends (hp ▸ hc) h
  have hsame : p.reserved a t = c.pool.reserved a t := congrArg Account.locked hp
  have hleft : p'.reserved a t = p.reserved a t - n := congrArg Account.locked he
  have hspent : c.pool.reserved a t - p'.reserved a t = n := by omega
  rw [hspent, he, hp]
  exact .spend _ n (hn.trans hsame.le)

theorem exec_step (hc : (c.pool.escrow a t).Sound) (h : c.exec d sender now call = .ok c') :
    Step unreserveDelay now (sender = a) (c.pool.escrow a t) (c'.pool.escrow a t)
      (c.releasedBy d a t (sender, now, call)) (c.consumedBy d a t (sender, now, call)) := by
  have hstep := step_of_ok h
  cases call with
  | deposit token amount approved =>
    simp only [exec, deposit, bind_eq_ok] at h
    obtain ⟨_, -, _, -, _, -, _, -, tokens, -, received, -, _, -, pool, hpool, h⟩ := h
    cases Except.ok.inj h
    simp only [releasedBy, consumedBy, Pool.credit_escrow hpool]
    exact .idle _
  | withdraw token amount =>
    simp only [exec, withdraw, bind_eq_ok] at h
    obtain ⟨_, -, _, -, _, -, free, -, tokens, -, h⟩ := h
    cases Except.ok.inj h
    exact .idle _
  | reserve token amount =>
    obtain ⟨p, hp, rfl⟩ := map_eq_ok.mp h
    exact Pool.reserve_step hp
  | requestUnreserve token amount =>
    obtain ⟨p, hp, rfl⟩ := map_eq_ok.mp h
    exact Pool.requestUnreserve_step hp
  | releaseUnreserve token =>
    obtain ⟨p, hp, rfl⟩ := map_eq_ok.mp h
    simp only [releasedBy, consumedBy, hstep]
    exact Pool.releaseUnreserve_step hc hp
  | submitBatch batchId auctionId proof publicInputs ms =>
    obtain ⟨p, hp, rfl⟩ := map_eq_ok.mp h
    simp only [releasedBy, consumedBy, hstep]
    exact settles_step (submitBatch_settles hp) hc rfl
  | submitSession s =>
    obtain ⟨p, hp, rfl⟩ := map_eq_ok.mp h
    simp only [submitSession, bind_eq_ok] at hp
    obtain ⟨_, -, _, -, _, -, _, -, _, -, _, -, _, -, _, -, hp⟩ := hp
    cases Except.ok.inj hp
    exact .idle _
  | settleAuction sessionId auctionId ms =>
    obtain ⟨p, hp, rfl⟩ := map_eq_ok.mp h
    simp only [releasedBy, consumedBy, hstep]
    exact settles_step (settleAuction_settles hp) hc rfl
  | tokenTransfer token recipient amount =>
    simp only [exec, bind_eq_ok] at h
    obtain ⟨_, -, tokens, -, h⟩ := h
    cases Except.ok.inj h
    exact .idle _
  | _ =>
    obtain ⟨p, hp, rfl⟩ := map_eq_ok.mp h
    have hbooks := Pool.adminCall_books hp
    have hsame : p.escrow a t = c.pool.escrow a t :=
      Pool.escrow_congr hbooks.reserved hbooks.pendingUnreserve hbooks.unreserveReadyAt
    simp only [releasedBy, consumedBy, withPool, hsame]
    exact .idle _

/-- A transaction that reverts is no operation on the collateral. -/
theorem step_step (hc : (c.pool.escrow a t).Sound) (tx : Address × Nat × Call) :
    Step unreserveDelay tx.2.1 (tx.1 = a) (c.pool.escrow a t) ((c.step d tx).pool.escrow a t)
      (c.releasedBy d a t tx) (c.consumedBy d a t tx) := by
  obtain ⟨sender, now, call⟩ := tx
  cases h : c.exec d sender now call with
  | ok c' =>
    rw [step_of_ok h]
    exact exec_step hc h
  | error e =>
    have hsame : c.step d (sender, now, call) = c := by simp only [step, h]
    have hnone : c.releasedBy d a t (sender, now, call) = 0 ∧ c.consumedBy d a t (sender, now, call) = 0 := by
      cases call <;> simp [releasedBy, consumedBy, hsame]
    rw [hsame, hnone.1, hnone.2]
    exact .idle _

theorem run_window (start limit : Nat) (hc : (c.pool.escrow a t).Sound) {txs : List (Address × Nat × Call)}
    (htimes : ∀ tx ∈ txs, start ≤ tx.2.1 ∧ tx.2.1 < limit) :
    Window unreserveDelay start limit (c.pool.escrow a t) ((c.run d txs).pool.escrow a t) (c.released d a t txs)
      (c.consumed d a t txs) := by
  induction txs generalizing c with
  | nil => exact .refl _
  | cons tx txs ih =>
    obtain ⟨hlate, hearly⟩ := htimes tx List.mem_cons_self
    have hhead := step_step (d := d) hc tx
    exact .step hlate hearly hhead (ih (hhead.sound (by decide) hc) (fun u hu => htimes u (List.mem_cons_of_mem tx hu)))

/-- An unbond is part of the collateral of its account, and its timer runs exactly while it is open. -/
theorem run_sound (hc : (c.pool.escrow a t).Sound) (txs : List (Address × Nat × Call)) :
    ((c.run d txs).pool.escrow a t).Sound := by
  induction txs generalizing c with
  | nil => exact hc
  | cons tx txs ih => exact ih ((step_step (d := d) hc tx).sound (by decide) hc)

theorem initial_sound (owner feeRecipient : Address) (pubkey : Bytes) (deployedAt : Nat) (a t : Address) :
    ((Pool.initial owner feeRecipient pubkey deployedAt).escrow a t).Sound :=
  ⟨Nat.zero_le _, Iff.rfl⟩

/-- In every reachable state an unbond is covered and timed; and within a window shorter than the delay
an account releases at most what was pending when the window began. -/
theorem run_releases_at_most_pending (d : Deployment) (owner feeRecipient : Address) (pubkey : Bytes)
    (deployedAt : Nat) (tokens : Address → Address → Nat) (past : List (Address × Nat × Call)) (c : Chain)
    (hc : c = Chain.run d ⟨Pool.initial owner feeRecipient pubkey deployedAt, tokens⟩ past) (a t : Address) :
    c.pool.pendingUnreserve a t ≤ c.pool.reserved a t ∧
    (c.pool.unreserveReadyAt a t = 0 ↔ c.pool.pendingUnreserve a t = 0) ∧
    ∀ (start stop : Nat) (txs : List (Address × Nat × Call)), start ≤ stop → stop < start + unreserveDelay →
      (∀ tx ∈ txs, start ≤ tx.2.1 ∧ tx.2.1 ≤ stop) →
      c.released d a t txs ≤ c.pool.pendingUnreserve a t ∧
      c.pool.reserved a t ≤ (c.run d txs).pool.reserved a t + c.pool.pendingUnreserve a t + c.consumed d a t txs := by
  have hsound : (c.pool.escrow a t).Sound := by
    rw [hc]
    exact run_sound (initial_sound owner feeRecipient pubkey deployedAt a t) past
  refine ⟨hsound.covered, hsound.timed, fun start stop txs _ hstop htimes => ?_⟩
  have hwindow := run_window (d := d) start (stop + 1) hsound
    (fun tx htx => ⟨(htimes tx htx).1, Nat.lt_succ_of_le (htimes tx htx).2⟩)
  have hreleased := hwindow.released_le (by omega)
  have hpending := (c.pool.escrow a t).matured_le_pending (stop + 1)
  have hlocked := hwindow.locked_le
  simp only [Pool.escrow] at hpending hlocked hreleased
  exact ⟨by omega, by omega⟩

end Chain

namespace Onchain

/-- Account 6 asks for part of its collateral at time 0. -/
def asked : List (Address × Nat × Call) := setup ++ [(6, 0, .requestUnreserve 3 (2 * 10 ^ 18))]

/-- The trade of account 6 with itself settles, and the account takes back what it asked for. -/
def takeBack : List (Address × Nat × Call) := [(4, 3600, selfBatch), (6, 3600, .releaseUnreserve 3)]

end Onchain

open Onchain in
theorem Chain.run_releases_asked :
    (Chain.run deployment start asked).released deployment 6 3 takeBack = 2 * 10 ^ 18 ∧
    (Chain.run deployment start asked).consumed deployment 6 3 takeBack = 2 * 10 ^ 18 ∧
    (Chain.run deployment start asked).released deployment 6 3 takeBack ≤
      (Chain.run deployment start asked).pool.pendingUnreserve 6 3 :=
  ⟨by decide +kernel, by decide +kernel, ((Chain.run_releases_at_most_pending deployment 2 6 [] 0 start.tokens asked
    _ rfl 6 3).2.2 3600 3600 takeBack le_rfl (by decide) (by simp [takeBack])).1⟩

end DarkPool
