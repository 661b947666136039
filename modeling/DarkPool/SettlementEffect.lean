import DarkPool.Unreserve

namespace DarkPool

section Amounts

variable (d : Deployment)

/-- What a match moves; nothing if the amounts do not fit. -/
def amounts (m : SolMatch) : Legs :=
  match legs d m with
  | .ok l => l
  | .error _ => ⟨0, 0, 0⟩

/-- What an account pays of a token out of its collateral. -/
def debit (m : SolMatch) (a t : Address) : Nat :=
  (if a = m.bidTrader ∧ t = m.quoteToken then (amounts d m).notional else 0) +
    if a = m.askTrader ∧ t = m.baseToken then (amounts d m).baseAmount else 0

/-- What an account receives of a token. -/
def receive (recipient : Address) (m : SolMatch) (a t : Address) : Nat :=
  (if a = m.bidTrader ∧ t = m.baseToken then (amounts d m).baseAmount else 0) +
  (if a = m.askTrader ∧ t = m.quoteToken then (amounts d m).notional - (amounts d m).fee else 0) +
    if a = recipient ∧ t = m.quoteToken then (amounts d m).fee else 0

def debits (ms : List SolMatch) (a t : Address) : Nat := (ms.map (fun m => debit d m a t)).sum

def receipts (recipient : Address) (ms : List SolMatch) (a t : Address) : Nat :=
  (ms.map (fun m => receive d recipient m a t)).sum

end Amounts

namespace Pool

variable {p p' p'' : Pool} {a t : Address} {n m : Nat} {a' t' : Address}

/-- The account pays `n` of the token out of its collateral, and receives `m`. An unbond keeps what is
left for it. -/
structure Pays (p p' : Pool) (a t : Address) (n m : Nat) : Prop where
  le : n ≤ p.reserved a t
  reserved : p'.reserved a t = p.reserved a t - n
  pending : p'.pendingUnreserve a t =
    min (p.pendingUnreserve a t) (max (p.reserved a t) (p.pendingUnreserve a t) - n)
  balances : p'.balances a t = p.balances a t + m

theorem Pays.refl (p : Pool) (a t : Address) : p.Pays p a t 0 0 :=
  ⟨Nat.zero_le _, rfl, by omega, rfl⟩

theorem Pays.trans {n' m' : Nat} (h : p.Pays p' a t n m) (h' : p'.Pays p'' a t n' m') :
    p.Pays p'' a t (n + n') (m + m') := by
  obtain ⟨hle, hr, hp, hb⟩ := h
  obtain ⟨hle', hr', hp', hb'⟩ := h'
  exact ⟨by omega, by omega, by omega, by omega⟩

theorem credit_pays (h : p.credit a' t' n = .ok p') (a t : Address) :
    p.Pays p' a t 0 (if a = a' ∧ t = t' then n else 0) := by
  obtain ⟨k, hk, h⟩ := bind_eq_ok.mp h
  obtain ⟨-, rfl⟩ := checked_eq_ok.mp hk
  cases Except.ok.inj h
  refine ⟨Nat.zero_le _, rfl, ?_, ?_⟩
  · show p.pendingUnreserve a t = _
    omega
  · simp only [withBalance, Ledger.put]
    split
    next heq => rw [heq.1, heq.2]
    next => rfl

theorem retirePending_pending {r : Nat} (hle : n ≤ r) (h : p.retirePending a t r n = .ok p') :
    p'.pendingUnreserve a t = min (p.pendingUnreserve a t) (max r (p.pendingUnreserve a t) - n) := by
  unfold retirePending at h
  simp only at h
  have hfree : (if p.pendingUnreserve a t < r then r - p.pendingUnreserve a t else 0) = r - p.pendingUnreserve a t := by
    split <;> omega
  rw [hfree] at h
  split at h
  next hzero =>
    cases Except.ok.inj h
    omega
  next hpos =>
    split at h
    next hreach =>
      obtain ⟨newPending, hnew, h⟩ := bind_eq_ok.mp h
      obtain ⟨hfits, rfl⟩ := checkedSub_eq_ok.mp hnew
      have hput : p'.pendingUnreserve a t = p.pendingUnreserve a t - (n - (r - p.pendingUnreserve a t)) := by
        cases Except.ok.inj h
        split <;> simp [withReadyAt, withPending, Ledger.put]
      omega
    next hspare =>
      cases Except.ok.inj h
      omega

theorem consumeReserved_pays (h : p.consumeReserved a' t' n = .ok p') (a t : Address) :
    p.Pays p' a t (if a = a' ∧ t = t' then n else 0) 0 := by
  obtain ⟨left, hleft, hretire⟩ := bind_eq_ok.mp h
  obtain ⟨hle, rfl⟩ := checkedSub_eq_ok.mp hleft
  obtain ⟨hb, hr⟩ := retirePending_books hretire
  by_cases heq : a = a' ∧ t = t'
  · obtain ⟨rfl, rfl⟩ := heq
    rw [if_pos ⟨rfl, rfl⟩]
    refine ⟨hle, ?_, retirePending_pending (p := p.withReserved a t _) hle hretire, by rw [hb]; rfl⟩
    rw [hr]
    simp [withReserved, Ledger.put]
  · rw [if_neg heq]
    have hsame := consumeReserved_other h heq
    refine ⟨Nat.zero_le _, congrArg Unbonding.Account.locked hsame, ?_, by rw [hb]; rfl⟩
    have hpending : p'.pendingUnreserve a t = p.pendingUnreserve a t := congrArg Unbonding.Account.pending hsame
    omega

end Pool

variable {d : Deployment} {p p' : Pool}

theorem amounts_of_legs {m : SolMatch} {l : Legs} (h : legs d m = .ok l) : amounts d m = l := by
  simp only [amounts, h]

theorem settleMatch_pays {m : SolMatch} (h : settleMatch d p m = .ok p') (a t : Address) :
    p.Pays p' a t (debit d m a t) (receive d p.feeRecipient m a t) := by
  unfold settleMatch at h
  obtain ⟨l, hl, h⟩ := bind_eq_ok.mp h
  obtain ⟨askReceives, hask, h⟩ := bind_eq_ok.mp h
  obtain ⟨p1, h1, h⟩ := bind_eq_ok.mp h
  obtain ⟨p2, h2, h⟩ := bind_eq_ok.mp h
  obtain ⟨p3, h3, h⟩ := bind_eq_ok.mp h
  obtain ⟨p4, h4, h5⟩ := bind_eq_ok.mp h
  obtain ⟨-, rfl⟩ := checkedSub_eq_ok.mp hask
  have hrecipient : p4.feeRecipient = p.feeRecipient := by
    rw [Pool.credit_frame h4, Pool.consumeReserved_frame h3, Pool.credit_frame h2, Pool.consumeReserved_frame h1]
    rfl
  have hpays := ((((Pool.consumeReserved_pays h1 a t).trans (Pool.credit_pays h2 a t)).trans
    (Pool.consumeReserved_pays h3 a t)).trans (Pool.credit_pays h4 a t)).trans (Pool.credit_pays h5 a t)
  simp only [debit, receive, amounts_of_legs hl, ← hrecipient]
  simpa only [Nat.add_zero, Nat.zero_add] using hpays

/-- A settlement pays and receives, for each account and token, the sums over its matches. -/
theorem settleMatches_pays {ms : List SolMatch} (h : settleMatches d p ms = .ok p') (a t : Address) :
    p.Pays p' a t (debits d ms a t) (receipts d p.feeRecipient ms a t) := by
  unfold settleMatches at h
  induction ms generalizing p with
  | nil =>
    cases Except.ok.inj h
    exact .refl _ a t
  | cons m ms ih =>
    rw [List.foldlM_cons] at h
    obtain ⟨p1, h1, h⟩ := bind_eq_ok.mp h
    have hrecipient : p1.feeRecipient = p.feeRecipient := by
      rw [settleMatch_frame h1]
      rfl
    have hpays := (settleMatch_pays h1 a t).trans (ih h)
    rw [hrecipient] at hpays
    simpa only [debits, receipts, List.map_cons, List.sum_cons] using hpays

/-- The accounts are the same: free balances, collateral, and how much of it unbonds. -/
structure Pool.SameAccounts (p q : Pool) : Prop where
  balances : p.balances = q.balances
  reserved : p.reserved = q.reserved
  pendingUnreserve : p.pendingUnreserve = q.pendingUnreserve

/-- Two settlements from the same accounts leave them the same exactly if they pay and receive the same. -/
theorem settleMatches_same_iff {q q' : Pool} {ms ms' : List SolMatch} (h : settleMatches d p ms = .ok p')
    (h' : settleMatches d q ms' = .ok q') (hsame : p.SameAccounts q) :
    p'.SameAccounts q' ↔ ∀ a t, debits d ms a t = debits d ms' a t ∧
      receipts d p.feeRecipient ms a t = receipts d q.feeRecipient ms' a t := by
  have hpays := settleMatches_pays h
  have hpays' := settleMatches_pays h'
  constructor
  · intro hend a t
    obtain ⟨hle, hr, -, hb⟩ := hpays a t
    obtain ⟨hle', hr', -, hb'⟩ := hpays' a t
    rw [← hend.reserved, ← hsame.reserved] at hr'
    rw [← hend.balances, ← hsame.balances] at hb'
    rw [← hsame.reserved] at hle'
    omega
  · intro htotals
    refine ⟨funext₂ fun a t => ?_, funext₂ fun a t => ?_, funext₂ fun a t => ?_⟩
    · rw [(hpays a t).balances, (hpays' a t).balances, hsame.balances, (htotals a t).2]
    · rw [(hpays a t).reserved, (hpays' a t).reserved, hsame.reserved, (htotals a t).1]
    · rw [(hpays a t).pending, (hpays' a t).pending, hsame.reserved, hsame.pendingUnreserve, (htotals a t).1]

end DarkPool
