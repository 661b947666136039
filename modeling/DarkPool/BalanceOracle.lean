import DarkPool.Unreserve
import DarkPool.Submitter

namespace DarkPool

open Unbonding

/-- `10^decimals` by repeated multiplication, within the range of a decimal. -/
def decimalPow : Nat → Except SettlementError Decimal
  | 0 => .ok 1
  | n + 1 => do
    let divisor ← decimalPow n
    if maxDecimal < divisor * 10 then .error .parse else .ok (divisor * 10)

/-- An amount in range divided by a power of ten in range is again a decimal, exactly. -/
def rawToDecimal (raw decimals : Nat) : Except SettlementError Decimal :=
  if maxDecimal < raw then .error .parse
  else do
    let divisor ← decimalPow decimals
    return raw / divisor

/-- The call of `reserved` times out or fails with `fault`, or answers from the chain as it is. -/
def readReserved (c : Chain) (fault : Option SettlementError) (trader asset : Address) : Except SettlementError Nat :=
  match fault with
  | some e => .error e
  | none => .ok (c.pool.reserved trader asset)

def ChainBalanceOracle.lookup (c : Chain) (fault : Option SettlementError) (trader asset : Address) (decimals : UInt8) :
    Except SettlementError (Decimal × Int) := do
  let raw ← readReserved c fault trader asset
  let balance ← rawToDecimal raw decimals.toNat
  return (balance, 0)

theorem decimalPow_eq_ok {n : Nat} {x : Decimal} (h : decimalPow n = .ok x) : x = 10 ^ n := by
  induction n generalizing x with
  | zero => exact (Except.ok.inj h).symm
  | succ n ih =>
    obtain ⟨divisor, hdivisor, h⟩ := bind_eq_ok.mp h
    obtain ⟨-, h⟩ := guard_eq_ok.mp h
    rw [← Except.ok.inj h, ih hdivisor, pow_succ]

/-- A balance is the whole of `reserved`, in units of the token. -/
theorem lookup_eq_ok {c : Chain} {fault : Option SettlementError} {trader asset : Address} {decimals : UInt8}
    {b : Decimal} {position : Int} (h : ChainBalanceOracle.lookup c fault trader asset decimals = .ok (b, position)) :
    b * 10 ^ decimals.toNat = c.pool.reserved trader asset := by
  obtain ⟨raw, hraw, h⟩ := bind_eq_ok.mp h
  obtain ⟨balance, hbalance, h⟩ := bind_eq_ok.mp h
  obtain ⟨divisor, hdivisor, hbalance⟩ := bind_eq_ok.mp (guard_eq_ok.mp hbalance).2
  have hb : raw / divisor = b := (Except.ok.inj hbalance).trans (congrArg Prod.fst (Except.ok.inj h))
  cases fault with
  | some e => cases hraw
  | none =>
    rw [← hb, decimalPow_eq_ok hdivisor, Except.ok.inj hraw]
    exact div_mul_cancel₀ _ (by positivity)

variable {d : Deployment} {a t : Address}

/-- Transactions in the order of their times, which lie in `[start, limit)`. No key signs for the zero
address. -/
structure Onward (start limit : Nat) (txs : List (Address × Nat × Call)) : Prop where
  sorted : txs.Pairwise (fun tx tx' => tx.2.1 ≤ tx'.2.1)
  times : ∀ tx ∈ txs, start ≤ tx.2.1 ∧ tx.2.1 < limit
  signed : ∀ tx ∈ txs, tx.1 ≠ 0

/-- Nobody can lift the pause. -/
def Pool.Frozen (p : Pool) : Prop := p.paused = true ∧ p.owner = 0 ∧ p.pendingOwner = 0

namespace Chain

variable {c c' : Chain} {sender : Address} {now : Nat} {call : Call}

theorem exec_frozen (hc : c.pool.Frozen) (hsender : sender ≠ 0) (h : c.exec d sender now call = .ok c') :
    c'.pool = c.pool := by
  obtain ⟨hpaused, howner, hpending⟩ := hc
  cases call with
  | tokenTransfer token recipient amount =>
    simp only [exec, bind_eq_ok] at h
    obtain ⟨_, -, tokens, -, h⟩ := h
    cases Except.ok.inj h
    rfl
  | acceptOwnership =>
    obtain ⟨p, hp, rfl⟩ := map_eq_ok.mp h
    simp only [adminCall, bind_eq_ok, require_eq_ok, hpending] at hp
    obtain ⟨_, heq, -⟩ := hp
    exact absurd heq.symm hsender
  | deposit | withdraw | reserve | requestUnreserve | releaseUnreserve | submitBatch | submitSession | settleAuction =>
    simp [exec, deposit, withdraw, Pool.reserve, Pool.requestUnreserve, Pool.releaseUnreserve, submitBatch,
      submitSession, settleAuction, map_eq_ok, bind_eq_ok, whenNotPaused, require_eq_ok, hpaused] at h
  | _ =>
    simp only [exec, adminCall, map_eq_ok, bind_eq_ok, onlyOwner, require_eq_ok] at h
    obtain ⟨p, ⟨_, heq, -⟩, -⟩ := h
    exact absurd (heq.trans howner) hsender

theorem run_frozen (hc : c.pool.Frozen) {txs : List (Address × Nat × Call)} (hsigned : ∀ tx ∈ txs, tx.1 ≠ 0) :
    (c.run d txs).pool = c.pool := by
  induction txs generalizing c with
  | nil => rfl
  | cons tx txs ih =>
    have hstep : (c.step d tx).pool = c.pool := by
      unfold step
      split
      next c' h => exact exec_frozen hc (hsigned tx List.mem_cons_self) h
      next => rfl
    exact (ih (hstep ▸ hc) (fun u hu => hsigned u (List.mem_cons_of_mem tx hu))).trans hstep

end Chain

theorem transferToken_lt {tokens tokens' : Address → Address → Nat} {token sender recipient : Address} {amount : Nat}
    (ht : ∀ t a, tokens t a < 2 ^ 256) (h : transferToken tokens token sender recipient amount = .ok tokens') :
    ∀ t a, tokens' t a < 2 ^ 256 := by
  obtain ⟨left, hleft, h⟩ := bind_eq_ok.mp h
  obtain ⟨-, rfl⟩ := checkedSub_eq_ok.mp hleft
  obtain ⟨n, hn, h⟩ := bind_eq_ok.mp h
  obtain ⟨hlt, rfl⟩ := checked_eq_ok.mp hn
  cases Except.ok.inj h
  intro t a
  unfold Ledger.put at hlt ⊢
  split
  next => exact hlt
  next =>
    split
    next => exact (Nat.sub_le _ _).trans_lt (ht token sender)
    next => exact ht t a

namespace Chain

variable {c c' : Chain} {sender : Address} {now : Nat} {call : Call}

theorem exec_tokens_lt (hc : ∀ t a, c.tokens t a < 2 ^ 256) (h : c.exec d sender now call = .ok c') :
    ∀ t a, c'.tokens t a < 2 ^ 256 := by
  cases call with
  | deposit token amount approved =>
    simp only [exec, deposit, bind_eq_ok] at h
    obtain ⟨_, -, _, -, _, -, _, -, tokens, htokens, received, -, _, -, pool, -, h⟩ := h
    cases Except.ok.inj h
    exact transferToken_lt hc htokens
  | withdraw token amount =>
    simp only [exec, withdraw, bind_eq_ok] at h
    obtain ⟨_, -, _, -, _, -, free, -, tokens, htokens, h⟩ := h
    cases Except.ok.inj h
    exact transferToken_lt hc htokens
  | tokenTransfer token recipient amount =>
    simp only [exec, bind_eq_ok] at h
    obtain ⟨_, -, tokens, htokens, h⟩ := h
    cases Except.ok.inj h
    exact transferToken_lt hc htokens
  | _ =>
    obtain ⟨p, -, rfl⟩ := map_eq_ok.mp h
    exact hc

theorem run_tokens_lt (hc : ∀ t a, c.tokens t a < 2 ^ 256) (txs : List (Address × Nat × Call)) :
    ∀ t a, (c.run d txs).tokens t a < 2 ^ 256 := by
  induction txs generalizing c with
  | nil => exact hc
  | cons tx txs ih =>
    refine ih ?_
    unfold step
    split
    next c' h => exact exec_tokens_lt hc h
    next => exact hc

/-- What an account has in the contract is a `uint256`, since the contract holds all of it. -/
theorem books_lt (hsolvent : c.Solvent d) (hc : ∀ t a, c.tokens t a < 2 ^ 256) (a t : Address) :
    c.pool.balances a t + c.pool.reserved a t < 2 ^ 256 := by
  have hb := Ledger.le_total c.pool.balances a t
  have hr := Ledger.le_total c.pool.reserved a t
  have howed := hsolvent t
  have htokens := hc t d.this
  unfold Pool.owed at howed
  omega

end Chain

theorem Pool.releaseUnreserve_ok {p : Pool} {now : Nat} (hopen : p.paused = false) (hpos : 0 < p.pendingUnreserve a t)
    (hready : p.unreserveReadyAt a t ≤ now) (hcov : p.pendingUnreserve a t ≤ p.reserved a t)
    (hfits : p.balances a t + p.reserved a t < 2 ^ 256) :
    ∃ p', p.releaseUnreserve a now t = .ok p' ∧ p'.reserved a t = p.reserved a t - p.pendingUnreserve a t := by
  have hamount : (if p.pendingUnreserve a t ≤ p.reserved a t then p.pendingUnreserve a t else p.reserved a t) =
      p.pendingUnreserve a t := if_pos hcov
  have hcredit : (p.withReserved a t (p.reserved a t - p.pendingUnreserve a t)).credit a t (p.pendingUnreserve a t) =
      .ok ((p.withReserved a t (p.reserved a t - p.pendingUnreserve a t)).withBalance a t
        (p.balances a t + p.pendingUnreserve a t)) :=
    bind_eq_ok.mpr ⟨_, checked_eq_ok.mpr ⟨by show p.balances a t + _ < _; omega, rfl⟩, rfl⟩
  simp only [releaseUnreserve, bind_eq_ok, whenNotPaused, require_eq_ok, hamount]
  refine ⟨_, ⟨(), hopen, (), hpos, (), hready, _, checkedSub_eq_ok.mpr ⟨hcov, rfl⟩, _, hcredit, rfl⟩, ?_⟩
  simp [withBalance, withReserved, withPending, withReadyAt, Ledger.put]

namespace Chain

variable {c : Chain}

theorem along_append (f : Chain → Address × Nat × Call → Nat) (txs txs' : List (Address × Nat × Call)) :
    along d f c (txs ++ txs') = along d f c txs + along d f (c.run d txs) txs' := by
  induction txs generalizing c with
  | nil => exact (Nat.zero_add _).symm
  | cons tx txs ih =>
    simp only [List.cons_append, along, ih, Nat.add_assoc]
    rfl

theorem run_append (txs txs' : List (Address × Nat × Call)) : c.run d (txs ++ txs') = (c.run d txs).run d txs' :=
  List.foldl_append

/-- A contract that is not frozen can be open at any time, with the accounts as they are. -/
theorem exists_opening (d : Deployment) (hc : ¬ c.pool.Frozen) (now : Nat) :
    ∃ txs, (∀ tx ∈ txs, tx.2.1 = now ∧ tx.1 ≠ 0) ∧ (c.run d txs).pool.paused = false ∧
      c.pool.SameBooks (c.run d txs).pool ∧ ∀ a t, c.consumed d a t txs = 0 := by
  by_cases hpaused : c.pool.paused = true
  swap
  · exact ⟨[], by simp, Bool.eq_false_iff.mpr hpaused, ⟨rfl, rfl, rfl, rfl, rfl, rfl, rfl, rfl, rfl, rfl⟩, fun _ _ => rfl⟩
  by_cases howner : c.pool.owner = 0
  · have hpending : c.pool.pendingOwner ≠ 0 := fun h => hc ⟨hpaused, howner, h⟩
    have hrun : (c.run d [(c.pool.pendingOwner, now, .acceptOwnership), (c.pool.pendingOwner, now, .unpause)]).pool =
        { c.pool with owner := c.pool.pendingOwner, pendingOwner := 0, paused := false } := by
      simp [run, step, exec, adminCall, onlyOwner, require, withPool, hpaused, bind, Except.bind, pure, Except.pure,
        Functor.map, Except.map]
    refine ⟨_, by simpa using hpending, congrArg Pool.paused hrun, ?_, fun _ _ => rfl⟩
    rw [hrun]
    exact ⟨rfl, rfl, rfl, rfl, rfl, rfl, rfl, rfl, rfl, rfl⟩
  · have hrun : (c.run d [(c.pool.owner, now, .unpause)]).pool = { c.pool with paused := false } := by
      simp [run, step, exec, adminCall, onlyOwner, require, withPool, hpaused, bind, Except.bind, pure, Except.pure,
        Functor.map, Except.map]
    refine ⟨_, by simpa using howner, congrArg Pool.paused hrun, ?_, fun _ _ => rfl⟩
    rw [hrun]
    exact ⟨rfl, rfl, rfl, rfl, rfl, rfl, rfl, rfl, rfl, rfl⟩

/-- Collateral that unbonds can be taken back as soon as it is ready, unless the contract is frozen. -/
theorem exists_release (hsound : (c.pool.escrow a t).Sound) (hfits : c.pool.balances a t + c.pool.reserved a t < 2 ^ 256)
    (hc : ¬ c.pool.Frozen) (ha : a ≠ 0) (hpos : 0 < c.pool.pendingUnreserve a t) {now : Nat}
    (hready : c.pool.unreserveReadyAt a t ≤ now) :
    ∃ txs, (∀ tx ∈ txs, tx.2.1 = now ∧ tx.1 ≠ 0) ∧
      (c.run d txs).pool.reserved a t = c.pool.reserved a t - c.pool.pendingUnreserve a t ∧
      c.consumed d a t txs = 0 := by
  obtain ⟨txs, htxs, hopen, hbooks, hconsumed⟩ := exists_opening d hc now
  obtain ⟨p', hp', hreserved⟩ : ∃ p', (c.run d txs).pool.releaseUnreserve a now t = .ok p' ∧
      p'.reserved a t = (c.run d txs).pool.reserved a t - (c.run d txs).pool.pendingUnreserve a t := by
    refine Pool.releaseUnreserve_ok hopen ?_ ?_ ?_ ?_
    · exact hbooks.pendingUnreserve ▸ hpos
    · exact hbooks.unreserveReadyAt ▸ hready
    · rw [hbooks.pendingUnreserve, hbooks.reserved]
      exact hsound.covered
    · rw [hbooks.balances, hbooks.reserved]
      exact hfits
  have hexec : (c.run d txs).exec d a now (.releaseUnreserve t) = .ok ((c.run d txs).withPool p') :=
    map_eq_ok.mpr ⟨p', hp', rfl⟩
  refine ⟨txs ++ [(a, now, .releaseUnreserve t)], ?_, ?_, ?_⟩
  · intro tx htx
    rcases List.mem_append.mp htx with htx | htx
    · exact htxs tx htx
    · rw [List.mem_singleton.mp htx]
      exact ⟨rfl, ha⟩
  · have hlast : (c.run d txs).run d [(a, now, .releaseUnreserve t)] = (c.run d txs).withPool p' := step_of_ok hexec
    rw [run_append, hlast, ← hbooks.reserved, ← hbooks.pendingUnreserve]
    exact hreserved
  · exact (along_append _ txs _).trans (by rw [show along d (consumedBy d a t) c txs = 0 from hconsumed a t]; rfl)

/-- No unbond is open for an account that never signs. -/
theorem run_pending_eq_zero (hsound : (c.pool.escrow a t).Sound) (hzero : c.pool.pendingUnreserve a t = 0)
    {txs : List (Address × Nat × Call)} (hsigned : ∀ tx ∈ txs, tx.1 ≠ a) :
    (c.run d txs).pool.pendingUnreserve a t = 0 := by
  induction txs generalizing c with
  | nil => exact hzero
  | cons tx txs ih =>
    have hstep := step_step (d := d) hsound tx
    have hle : (c.step d tx).pool.pendingUnreserve a t ≤ c.pool.pendingUnreserve a t :=
      hstep.pending_le (hsigned tx List.mem_cons_self)
    exact ih (hstep.sound (by decide) hsound) (by omega) (fun u hu => hsigned u (List.mem_cons_of_mem tx hu))

end Chain

namespace ChainBalanceOracle

open Chain

/-- A balance read at time `start` stays backed for the length of the unbonding delay exactly if nothing
that was asked for before the read becomes releasable in that time, or the contract is paused for good. -/
theorem lookup_backed_iff (d : Deployment) (owner feeRecipient : Address) (pubkey : Bytes) (deployedAt : Nat)
    (tokens : Address → Address → Nat) (htokens : ∀ t a, tokens t a < 2 ^ 256) (past : List (Address × Nat × Call))
    (hpast : ∀ tx ∈ past, tx.1 ≠ 0) (c : Chain)
    (hc : c = Chain.run d ⟨Pool.initial owner feeRecipient pubkey deployedAt, tokens⟩ past)
    (fault : Option SettlementError) (trader asset : Address) (decimals : UInt8) (b : Decimal) (position : Int)
    (hread : lookup c fault trader asset decimals = .ok (b, position)) (start : Nat) :
    (∀ txs, Onward start (start + unreserveDelay) txs →
      b * 10 ^ decimals.toNat ≤ ((c.run d txs).pool.reserved trader asset + c.consumed d trader asset txs : Nat)) ↔
    c.pool.pendingUnreserve trader asset = 0 ∨ start + unreserveDelay ≤ c.pool.unreserveReadyAt trader asset ∨
      c.pool.Frozen := by
  have hsound : (c.pool.escrow trader asset).Sound := by
    rw [hc]
    exact run_sound (initial_sound owner feeRecipient pubkey deployedAt trader asset) past
  have hsolvent : c.Solvent d := by
    rw [hc]
    exact (run_solvent d owner feeRecipient pubkey deployedAt tokens past).1
  have hfits : c.pool.balances trader asset + c.pool.reserved trader asset < 2 ^ 256 :=
    books_lt hsolvent (hc ▸ run_tokens_lt htokens past) trader asset
  rw [lookup_eq_ok hread]
  simp only [Nat.cast_le]
  constructor
  · intro hbacked
    by_contra hnone
    simp only [not_or, not_le] at hnone
    obtain ⟨hpos, hready, hthawed⟩ := hnone
    have htrader : trader ≠ 0 := by
      rintro rfl
      refine hpos ?_
      rw [hc]
      exact run_pending_eq_zero (initial_sound owner feeRecipient pubkey deployedAt 0 asset) rfl hpast
    -- The account takes its unbond back at the first moment of the window at which it is ready.
    obtain ⟨txs, htxs, hleft, hconsumed⟩ := exists_release (d := d) hsound hfits hthawed htrader
      (Nat.pos_of_ne_zero hpos) (le_max_right start (c.pool.unreserveReadyAt trader asset))
    have honward : Onward start (start + unreserveDelay) txs := by
      refine ⟨List.pairwise_of_forall_mem_list (fun tx htx tx' htx' => ?_), fun tx htx => ?_, fun tx htx => (htxs tx htx).2⟩
      · rw [(htxs tx htx).1, (htxs tx' htx').1]
      · rw [(htxs tx htx).1]
        have hdelay : 0 < unreserveDelay := by decide
        omega
    have hle := hbacked txs honward
    have hcov : c.pool.pendingUnreserve trader asset ≤ c.pool.reserved trader asset := hsound.covered
    omega
  · intro hcond txs honward
    rcases hcond with hpending | hlate | hfrozen
    · have hwindow := run_window (d := d) start (start + unreserveDelay) hsound honward.times
      have hreleased := hwindow.released_le le_rfl
      have hmatured := (c.pool.escrow trader asset).matured_le_pending (start + unreserveDelay)
      have hlocked := hwindow.locked_le
      simp only [Pool.escrow] at hmatured hlocked hreleased
      omega
    · have hwindow := run_window (d := d) start (start + unreserveDelay) hsound honward.times
      have hreleased := hwindow.released_le le_rfl
      have hmatured : (c.pool.escrow trader asset).matured (start + unreserveDelay) = 0 := if_neg (Nat.not_lt.mpr hlate)
      have hlocked := hwindow.locked_le
      rw [hmatured] at hreleased
      simp only [Pool.escrow] at hlocked hreleased
      omega
    · rw [run_frozen hfrozen honward.signed]
      exact Nat.le_add_right _ _

end ChainBalanceOracle

open Onchain in
/-- Collateral asked for an hour before the read leaves right after it. -/
theorem ChainBalanceOracle.lookup_asked_released :
    lookup (Chain.run deployment start asked) none 6 3 18 = .ok (5, 0) ∧
    Onward 3600 (3600 + unreserveDelay) [(6, 3600, .releaseUnreserve 3)] ∧
    ¬ (5 * 10 ^ 18 ≤ ((Chain.run deployment start asked).run deployment [(6, 3600, .releaseUnreserve 3)]).pool.reserved
        6 3 + (Chain.run deployment start asked).consumed deployment 6 3 [(6, 3600, .releaseUnreserve 3)]) :=
  ⟨by decide +kernel, ⟨by simp, by simp [unreserveDelay], by simp⟩, by decide⟩

open Onchain in
theorem ChainBalanceOracle.lookup_backed_setup :
    lookup (Chain.run deployment start setup) none 6 3 18 = .ok (5, 0) ∧
    ∀ txs, Onward 0 (0 + unreserveDelay) txs → (5 : Decimal) * 10 ^ (18 : UInt8).toNat ≤
      (((Chain.run deployment start setup).run deployment txs).pool.reserved 6 3 +
        (Chain.run deployment start setup).consumed deployment 6 3 txs : Nat) := by
  have hread : lookup (Chain.run deployment start setup) none 6 3 18 = .ok (5, 0) := by decide +kernel
  have htokens : ∀ t a, start.tokens t a < 2 ^ 256 := by
    intro t a
    unfold start
    dsimp only
    split <;> decide
  exact ⟨hread, (ChainBalanceOracle.lookup_backed_iff deployment 2 6 [] 0 start.tokens htokens setup
    (by simp [setup]) _ rfl none 6 3 18 5 0 hread 0).mpr (Or.inl (by decide))⟩

end DarkPool
