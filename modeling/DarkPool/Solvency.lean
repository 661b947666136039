import DarkPool.Chain
import DarkPool.Admission

namespace DarkPool

theorem require_eq_ok {cond : Prop} [Decidable cond] {reason : String} {u : Unit} :
    require cond reason = .ok u ↔ cond := by
  unfold require
  split
  next h => simp [h]
  next h => simp [h]

theorem checked_eq_ok {n m : Nat} : checked n = .ok m ↔ n < 2 ^ 256 ∧ m = n := by
  unfold checked
  split
  next h => exact ⟨fun he => ⟨h, (Except.ok.inj he).symm⟩, fun he => he.2 ▸ rfl⟩
  next h => exact Iff.intro (fun he => by simp at he) (fun he => absurd he.1 h)

theorem checkedSub_eq_ok {x y z : Nat} : checkedSub x y = .ok z ↔ y ≤ x ∧ z = x - y := by
  unfold checkedSub
  split
  next h => simp [h, eq_comm]
  next h => simp [h]

theorem map_eq_ok {ε α β : Type} {f : α → β} {x : Except ε α} {y : β} :
    f <$> x = .ok y ↔ ∃ a, x = .ok a ∧ f a = y := by
  cases x <;> simp [Functor.map, Except.map]

theorem exists_ok_of_isSome {ε α : Type} {x : Except ε α} (h : x.toOption.isSome = true) : ∃ a, x = .ok a := by
  cases x with
  | error e => simp [Except.toOption] at h
  | ok a => exact ⟨a, rfl⟩

theorem exists_ok_of_any {ε α : Type} {x : Except ε α} {f : α → Bool} (h : x.toOption.any f = true) :
    ∃ a, x = .ok a ∧ f a = true := by
  cases x with
  | error e => simp [Except.toOption] at h
  | ok a => exact ⟨a, rfl, by simpa [Except.toOption] using h⟩

/-- What the contract owes in a token: free and reserved balances of every account. -/
def Pool.owed (p : Pool) (t : Address) : Nat := Ledger.total p.balances t + Ledger.total p.reserved t

namespace Pool

variable {p p' : Pool} {a t : Address} {amount : Nat}

/-- The pool keeps its books, whatever else it changes. -/
theorem owed_congr (hb : p'.balances = p.balances) (hr : p'.reserved = p.reserved) (t : Address) :
    p'.owed t = p.owed t := by rw [owed, owed, hb, hr]

theorem owed_withBalance (p : Pool) (a t : Address) (n : Nat) (t' : Address) :
    (p.withBalance a t n).owed t' + Ledger.only t t' (p.balances a t) = p.owed t' + Ledger.only t t' n := by
  have h := Ledger.total_put p.balances a t n t'
  unfold owed withBalance
  dsimp only
  omega

theorem owed_withReserved (p : Pool) (a t : Address) (n : Nat) (t' : Address) :
    (p.withReserved a t n).owed t' + Ledger.only t t' (p.reserved a t) = p.owed t' + Ledger.only t t' n := by
  have h := Ledger.total_put p.reserved a t n t'
  unfold owed withReserved
  dsimp only
  omega

theorem credit_owed (h : p.credit a t amount = .ok p') (t' : Address) :
    p'.owed t' = p.owed t' + Ledger.only t t' amount := by
  obtain ⟨n, hn, h⟩ := bind_eq_ok.mp h
  obtain ⟨-, rfl⟩ := checked_eq_ok.mp hn
  cases Except.ok.inj h
  have hput := owed_withBalance p a t (p.balances a t + amount) t'
  rw [Ledger.only_add] at hput
  omega

/-- Retiring a pending unbond touches the unbond only. -/
theorem retirePending_eq_ok {r : Nat} (h : p.retirePending a t r amount = .ok p') :
    p' = p ∨ ∃ n, p' = p.withPending a t n ∨ p' = (p.withPending a t n).withReadyAt a t 0 := by
  unfold retirePending at h
  simp only at h
  split at h
  next => exact Or.inl (Except.ok.inj h).symm
  next =>
    generalize (if p.pendingUnreserve a t < r then r - p.pendingUnreserve a t else 0) = freeReserved at h
    split at h
    next =>
      obtain ⟨newPending, -, h⟩ := bind_eq_ok.mp h
      cases Except.ok.inj h
      refine Or.inr ⟨newPending, ?_⟩
      split
      next => exact Or.inr rfl
      next => exact Or.inl rfl
    next => exact Or.inl (Except.ok.inj h).symm

theorem retirePending_books {r : Nat} (h : p.retirePending a t r amount = .ok p') :
    p'.balances = p.balances ∧ p'.reserved = p.reserved := by
  rcases retirePending_eq_ok h with rfl | ⟨n, rfl | rfl⟩ <;> exact ⟨rfl, rfl⟩

theorem consumeReserved_owed (h : p.consumeReserved a t amount = .ok p') (t' : Address) :
    p'.owed t' + Ledger.only t t' amount = p.owed t' := by
  obtain ⟨left, hleft, h⟩ := bind_eq_ok.mp h
  obtain ⟨hle, rfl⟩ := checkedSub_eq_ok.mp hleft
  obtain ⟨hb, hr⟩ := retirePending_books h
  have hput := owed_withReserved p a t (p.reserved a t - amount) t'
  have hsplit : p.reserved a t = (p.reserved a t - amount) + amount := (Nat.sub_add_cancel hle).symm
  have hsum := Ledger.only_add t t' (p.reserved a t - amount) amount
  rw [← hsplit] at hsum
  rw [owed_congr hb hr]
  omega

end Pool

variable {d : Deployment} {p p' : Pool} {sender : Address}

/-- A match moves funds between accounts and creates none, whoever its parties and tokens are. -/
theorem settleMatch_owed {m : SolMatch} (h : settleMatch d p m = .ok p') (t : Address) : p'.owed t = p.owed t := by
  unfold settleMatch at h
  obtain ⟨l, -, h⟩ := bind_eq_ok.mp h
  obtain ⟨askReceives, hask, h⟩ := bind_eq_ok.mp h
  obtain ⟨p1, h1, h⟩ := bind_eq_ok.mp h
  obtain ⟨p2, h2, h⟩ := bind_eq_ok.mp h
  obtain ⟨p3, h3, h⟩ := bind_eq_ok.mp h
  obtain ⟨p4, h4, h5⟩ := bind_eq_ok.mp h
  obtain ⟨hfee, rfl⟩ := checkedSub_eq_ok.mp hask
  -- Quote leaves the bid and reaches the ask and the fee recipient; base goes the other way.
  have e1 := Pool.consumeReserved_owed h1 t
  have e2 := Pool.credit_owed h2 t
  have e3 := Pool.consumeReserved_owed h3 t
  have e4 := Pool.credit_owed h4 t
  have e5 := Pool.credit_owed h5 t
  have hnotional := Ledger.only_add m.quoteToken t (l.notional - l.fee) l.fee
  rw [Nat.sub_add_cancel hfee] at hnotional
  omega

theorem settleMatches_owed {ms : List SolMatch} (h : settleMatches d p ms = .ok p') (t : Address) :
    p'.owed t = p.owed t := by
  unfold settleMatches at h
  induction ms generalizing p with
  | nil =>
    cases Except.ok.inj h
    rfl
  | cons m ms ih =>
    rw [List.foldlM_cons] at h
    obtain ⟨p1, h1, h⟩ := bind_eq_ok.mp h
    rw [ih h, settleMatch_owed h1]

/-- The accounts of `q`, and all else as in `p`. -/
def Pool.withBooks (p q : Pool) : Pool :=
  { p with
    balances := q.balances
    reserved := q.reserved
    pendingUnreserve := q.pendingUnreserve
    unreserveReadyAt := q.unreserveReadyAt }

theorem Pool.credit_frame {a t : Address} {n : Nat} (h : p.credit a t n = .ok p') : p' = p.withBooks p' := by
  obtain ⟨m, -, h⟩ := bind_eq_ok.mp h
  cases Except.ok.inj h
  rfl

theorem Pool.consumeReserved_frame {a t : Address} {n : Nat} (h : p.consumeReserved a t n = .ok p') :
    p' = p.withBooks p' := by
  obtain ⟨left, -, h⟩ := bind_eq_ok.mp h
  rcases Pool.retirePending_eq_ok h with rfl | ⟨n, rfl | rfl⟩ <;> rfl

theorem settleMatch_frame {m : SolMatch} (h : settleMatch d p m = .ok p') : p' = p.withBooks p' := by
  unfold settleMatch at h
  obtain ⟨l, -, h⟩ := bind_eq_ok.mp h
  obtain ⟨askReceives, -, h⟩ := bind_eq_ok.mp h
  obtain ⟨p1, h1, h⟩ := bind_eq_ok.mp h
  obtain ⟨p2, h2, h⟩ := bind_eq_ok.mp h
  obtain ⟨p3, h3, h⟩ := bind_eq_ok.mp h
  obtain ⟨p4, h4, h5⟩ := bind_eq_ok.mp h
  rw [Pool.credit_frame h5, Pool.credit_frame h4, Pool.consumeReserved_frame h3, Pool.credit_frame h2,
    Pool.consumeReserved_frame h1]
  rfl

/-- Settling matches touches nothing but the accounts. -/
theorem settleMatches_frame {ms : List SolMatch} (h : settleMatches d p ms = .ok p') : p' = p.withBooks p' := by
  unfold settleMatches at h
  induction ms generalizing p with
  | nil =>
    cases Except.ok.inj h
    rfl
  | cons m ms ih =>
    rw [List.foldlM_cons] at h
    obtain ⟨p1, h1, h⟩ := bind_eq_ok.mp h
    rw [ih h, settleMatch_frame h1]
    rfl

/-- Past its checks, `submitBatch` only settles the matches. -/
theorem submitBatch_settles {batchId auctionId : Bytes32} {proof : Bytes} {publicInputs : Vector Nat 6}
    {ms : List SolMatch} (h : submitBatch d p sender batchId auctionId proof publicInputs ms = .ok p') :
    settleMatches d (p.markBatch (d.domainId "batch" batchId) (d.domainId "auction" auctionId)) ms = .ok p' := by
  simp only [submitBatch, bind_eq_ok] at h
  obtain ⟨_, -, _, -, _, -, _, -, _, -, _, -, _, -, _, -, _, -, _, -, _, -, h⟩ := h
  exact h

/-- Past its checks, `settleAuction` only settles the matches. -/
theorem settleAuction_settles {sessionId auctionId : Bytes32} {ms : List SolMatch}
    (h : settleAuction d p sender sessionId auctionId ms = .ok p') :
    settleMatches d (p.markAuction (d.domainId "auction" auctionId) (d.domainId "session" sessionId) sessionId) ms =
      .ok p' := by
  simp only [settleAuction, bind_eq_ok] at h
  obtain ⟨_, -, _, -, _, -, _, -, _, -, _, -, _, -, _, -, _, -, _, -, h⟩ := h
  exact h

/-- The calls that settle matches. -/
def Call.Settles : Call → Prop
  | .submitBatch _ _ _ _ _ | .settleAuction _ _ _ => True
  | _ => False

section Tokens

variable {tokens tokens' : Address → Address → Nat} {token recipient : Address} {amount : Nat}

theorem transferToken_eq_ok (h : transferToken tokens token sender recipient amount = .ok tokens') :
    amount ≤ tokens token sender ∧ ∃ n, tokens' = Ledger.put
      (Ledger.put tokens token sender (tokens token sender - amount)) token recipient n ∧
      n = Ledger.put tokens token sender (tokens token sender - amount) token recipient + amount := by
  obtain ⟨left, hleft, h⟩ := bind_eq_ok.mp h
  obtain ⟨hle, rfl⟩ := checkedSub_eq_ok.mp hleft
  obtain ⟨n, hn, h⟩ := bind_eq_ok.mp h
  obtain ⟨-, rfl⟩ := checked_eq_ok.mp hn
  exact ⟨hle, _, (Except.ok.inj h).symm, rfl⟩

/-- A transfer leaves the other tokens alone. -/
theorem transferToken_other (h : transferToken tokens token sender recipient amount = .ok tokens') {t : Address}
    (ht : t ≠ token) (a : Address) : tokens' t a = tokens t a := by
  obtain ⟨-, n, rfl, -⟩ := transferToken_eq_ok h
  simp [Ledger.put, ht]

/-- An account loses at most the amount. -/
theorem transferToken_le (h : transferToken tokens token sender recipient amount = .ok tokens') (a : Address) :
    tokens token a ≤ tokens' token a + amount := by
  obtain ⟨hle, n, rfl, hn⟩ := transferToken_eq_ok h
  simp only [Ledger.put, true_and] at hn ⊢
  by_cases hr : a = recipient
  · subst hr
    rw [if_pos rfl, hn]
    by_cases hs : a = sender
    · subst hs
      rw [if_pos rfl]
      omega
    · rw [if_neg hs]
      omega
  · rw [if_neg hr]
    by_cases hs : a = sender
    · subst hs
      rw [if_pos rfl]
      omega
    · rw [if_neg hs]
      omega

/-- An account that does not send loses nothing. -/
theorem transferToken_le_of_ne (h : transferToken tokens token sender recipient amount = .ok tokens') {a : Address}
    (ha : a ≠ sender) : tokens token a ≤ tokens' token a := by
  obtain ⟨-, n, rfl, hn⟩ := transferToken_eq_ok h
  simp only [Ledger.put, true_and] at hn ⊢
  by_cases hr : a = recipient
  · subst hr
    rw [if_pos rfl, hn, if_neg ha]
    omega
  · rw [if_neg hr, if_neg ha]

end Tokens

namespace Chain

variable {c c' : Chain} {now : Nat}

/-- The contract holds at least what it owes, in every token. -/
def Solvent (d : Deployment) (c : Chain) : Prop := ∀ t, c.pool.owed t ≤ c.tokens t d.this

theorem deposit_solvent {token : Address} {amount : Nat} {approved : Bool} (hc : c.Solvent d)
    (h : c.deposit d sender token amount approved = .ok c') : c'.Solvent d := by
  simp only [deposit, bind_eq_ok, require_eq_ok] at h
  obtain ⟨_, -, _, -, _, -, _, -, tokens, htokens, received, hrec, _, -, pool, hpool, h⟩ := h
  obtain ⟨hle, hrec⟩ := checkedSub_eq_ok.mp hrec
  cases Except.ok.inj h
  intro t
  have hcredit := Pool.credit_owed hpool t
  have hold := hc t
  by_cases ht : t = token
  · subst ht
    have honly : Ledger.only t t received = received := if_pos rfl
    dsimp only at hcredit ⊢
    clear htokens
    omega
  · have honly : Ledger.only token t received = 0 := if_neg ht
    have hsame := transferToken_other htokens ht d.this
    clear ht htokens
    dsimp only at hcredit ⊢
    omega

theorem withdraw_solvent {token : Address} {amount : Nat} (hc : c.Solvent d)
    (h : c.withdraw d sender token amount = .ok c') : c'.Solvent d := by
  simp only [withdraw, bind_eq_ok, require_eq_ok] at h
  obtain ⟨_, -, _, -, _, -, free, hfree, tokens, htokens, h⟩ := h
  obtain ⟨hle, rfl⟩ := checkedSub_eq_ok.mp hfree
  cases Except.ok.inj h
  intro t
  have hput := Pool.owed_withBalance c.pool sender token (c.pool.balances sender token - amount) t
  have hsum := Ledger.only_add token t (c.pool.balances sender token - amount) amount
  rw [Nat.sub_add_cancel hle] at hsum
  have hold := hc t
  by_cases ht : t = token
  · subst ht
    have honly : Ledger.only t t amount = amount := if_pos rfl
    have hloss := transferToken_le htokens d.this
    clear htokens
    dsimp only at hput ⊢
    omega
  · have honly : Ledger.only token t amount = 0 := if_neg ht
    have hsame := transferToken_other htokens ht d.this
    clear ht htokens
    dsimp only at hput ⊢
    omega

end Chain

namespace Pool

variable {token : Address} {amount now : Nat}

/-- Reserving moves an account's own funds. -/
theorem reserve_owed (h : p.reserve sender token amount = .ok p') (t : Address) : p'.owed t = p.owed t := by
  simp only [reserve, bind_eq_ok, require_eq_ok] at h
  obtain ⟨_, -, _, -, _, -, free, hfree, locked, hlocked, h⟩ := h
  obtain ⟨hle, rfl⟩ := checkedSub_eq_ok.mp hfree
  obtain ⟨-, rfl⟩ := checked_eq_ok.mp hlocked
  cases Except.ok.inj h
  have hb := owed_withBalance p sender token (p.balances sender token - amount) t
  have hr := owed_withReserved (p.withBalance sender token (p.balances sender token - amount)) sender token
    (p.reserved sender token + amount) t
  have hsum := Ledger.only_add token t (p.balances sender token - amount) amount
  have hsum' := Ledger.only_add token t (p.reserved sender token) amount
  rw [Nat.sub_add_cancel hle] at hsum
  have hsame : (p.withBalance sender token (p.balances sender token - amount)).reserved sender token =
      p.reserved sender token := rfl
  rw [hsame] at hr
  omega

theorem requestUnreserve_owed (h : p.requestUnreserve sender now token amount = .ok p') (t : Address) :
    p'.owed t = p.owed t := by
  simp only [requestUnreserve, bind_eq_ok, require_eq_ok] at h
  obtain ⟨_, -, _, -, _, -, _, -, _, -, h⟩ := h
  cases Except.ok.inj h
  exact owed_congr rfl rfl t

theorem releaseUnreserve_owed (h : p.releaseUnreserve sender now token = .ok p') (t : Address) :
    p'.owed t = p.owed t := by
  simp only [releaseUnreserve, bind_eq_ok, require_eq_ok] at h
  obtain ⟨_, -, _, -, _, -, left, hleft, p1, h1, h⟩ := h
  generalize (if p.pendingUnreserve sender token ≤ p.reserved sender token then p.pendingUnreserve sender token
    else p.reserved sender token) = amount at hleft h1
  obtain ⟨hle, rfl⟩ := checkedSub_eq_ok.mp hleft
  cases Except.ok.inj h
  have hr := owed_withReserved p sender token (p.reserved sender token - amount) t
  have hcredit := credit_owed h1 t
  have hsum := Ledger.only_add token t (p.reserved sender token - amount) amount
  rw [Nat.sub_add_cancel hle] at hsum
  have hsame : ((p1.withPending sender token 0).withReadyAt sender token 0).owed t = p1.owed t := owed_congr rfl rfl t
  omega

theorem submitSession_owed {s : Session} (h : submitSession d p sender s = .ok p') (t : Address) :
    p'.owed t = p.owed t := by
  simp only [submitSession, bind_eq_ok] at h
  obtain ⟨_, -, _, -, _, -, _, -, _, -, _, -, _, -, _, -, h⟩ := h
  cases Except.ok.inj h
  exact owed_congr rfl rfl t

/-- The accounts and the settlement flags are as they were. -/
structure SameBooks (p p' : Pool) : Prop where
  balances : p'.balances = p.balances
  reserved : p'.reserved = p.reserved
  pendingUnreserve : p'.pendingUnreserve = p.pendingUnreserve
  unreserveReadyAt : p'.unreserveReadyAt = p.unreserveReadyAt
  settledBatch : p'.settledBatch = p.settledBatch
  settledAuction : p'.settledAuction = p.settledAuction
  sessionSubmitted : p'.sessionSubmitted = p.sessionSubmitted
  auctionToSession : p'.auctionToSession = p.auctionToSession
  sessionSettlementAcc : p'.sessionSettlementAcc = p.sessionSettlementAcc
  sessionSettled : p'.sessionSettled = p.sessionSettled

/-- No owner call touches the books. -/
theorem adminCall_books {call : Call} (h : adminCall d p sender call = .ok p') : p.SameBooks p' := by
  cases call <;> simp only [adminCall, bind_eq_ok, reduceCtorEq] at h
  case setOperatorPubkey =>
    obtain ⟨_, -, _, -, _, -, _, -, h⟩ := h
    cases Except.ok.inj h
    exact ⟨rfl, rfl, rfl, rfl, rfl, rfl, rfl, rfl, rfl, rfl⟩
  case setIvcVerifier =>
    obtain ⟨_, -, _, -, _, -, h⟩ := h
    cases Except.ok.inj h
    exact ⟨rfl, rfl, rfl, rfl, rfl, rfl, rfl, rfl, rfl, rfl⟩
  case addOperator | setFeeRecipient | setTokenAllowed | pause | unpause =>
    obtain ⟨_, -, _, -, h⟩ := h
    cases Except.ok.inj h
    exact ⟨rfl, rfl, rfl, rfl, rfl, rfl, rfl, rfl, rfl, rfl⟩
  all_goals
    obtain ⟨_, -, h⟩ := h
    cases Except.ok.inj h
    exact ⟨rfl, rfl, rfl, rfl, rfl, rfl, rfl, rfl, rfl, rfl⟩

theorem adminCall_owed {call : Call} (h : adminCall d p sender call = .ok p') (t : Address) :
    p'.owed t = p.owed t :=
  owed_congr (adminCall_books h).balances (adminCall_books h).reserved t

end Pool

namespace Chain

variable {c c' : Chain} {now : Nat} {call : Call}

theorem Solvent.withPool (hc : c.Solvent d) (h : ∀ t, p.owed t = c.pool.owed t) : (c.withPool p).Solvent d :=
  fun t => (h t).trans_le (hc t)

theorem exec_settles_owed (hcall : call.Settles) (h : c.exec d sender now call = .ok c') (t : Address) :
    c'.pool.owed t = c.pool.owed t := by
  cases call with
  | submitBatch batchId auctionId proof publicInputs ms =>
    obtain ⟨p, hp, rfl⟩ := map_eq_ok.mp h
    exact (settleMatches_owed (submitBatch_settles hp) t).trans (Pool.owed_congr rfl rfl t)
  | settleAuction sessionId auctionId ms =>
    obtain ⟨p, hp, rfl⟩ := map_eq_ok.mp h
    exact (settleMatches_owed (settleAuction_settles hp) t).trans (Pool.owed_congr rfl rfl t)
  | _ => exact hcall.elim

theorem exec_solvent (hc : c.Solvent d) (h : c.exec d sender now call = .ok c') : c'.Solvent d := by
  cases call with
  | deposit token amount approved => exact deposit_solvent hc h
  | withdraw token amount => exact withdraw_solvent hc h
  | reserve token amount =>
    obtain ⟨p, hp, rfl⟩ := map_eq_ok.mp h
    exact hc.withPool (Pool.reserve_owed hp)
  | requestUnreserve token amount =>
    obtain ⟨p, hp, rfl⟩ := map_eq_ok.mp h
    exact hc.withPool (Pool.requestUnreserve_owed hp)
  | releaseUnreserve token =>
    obtain ⟨p, hp, rfl⟩ := map_eq_ok.mp h
    exact hc.withPool (Pool.releaseUnreserve_owed hp)
  | submitBatch batchId auctionId proof publicInputs ms =>
    obtain ⟨p, hp, rfl⟩ := map_eq_ok.mp h
    exact hc.withPool (fun t => (settleMatches_owed (submitBatch_settles hp) t).trans (Pool.owed_congr rfl rfl t))
  | submitSession s =>
    obtain ⟨p, hp, rfl⟩ := map_eq_ok.mp h
    exact hc.withPool (Pool.submitSession_owed hp)
  | settleAuction sessionId auctionId ms =>
    obtain ⟨p, hp, rfl⟩ := map_eq_ok.mp h
    exact hc.withPool (fun t => (settleMatches_owed (settleAuction_settles hp) t).trans (Pool.owed_congr rfl rfl t))
  | tokenTransfer token recipient amount =>
    simp only [exec, bind_eq_ok, require_eq_ok] at h
    obtain ⟨_, hne, tokens, htokens, h⟩ := h
    cases Except.ok.inj h
    intro t
    refine (hc t).trans ?_
    by_cases ht : t = token
    · subst ht
      exact transferToken_le_of_ne htokens (Ne.symm hne)
    · exact (transferToken_other htokens ht d.this).ge
  | _ =>
    obtain ⟨p, hp, rfl⟩ := map_eq_ok.mp h
    exact hc.withPool (Pool.adminCall_owed hp)

theorem run_solvent_of {txs : List (Address × Nat × Call)} (hc : c.Solvent d) : (c.run d txs).Solvent d := by
  unfold Chain.run
  induction txs generalizing c with
  | nil => exact hc
  | cons tx txs ih =>
    refine ih ?_
    unfold Chain.step
    split
    next c' h => exact exec_solvent hc h
    next => exact hc

/-- However the contract is called, it holds in every token what its accounts have, and a settlement
neither adds to that nor takes from it. -/
theorem run_solvent (d : Deployment) (owner feeRecipient : Address) (pubkey : Bytes) (deployedAt : Nat)
    (tokens : Address → Address → Nat) (txs : List (Address × Nat × Call)) :
    (Chain.run d ⟨Pool.initial owner feeRecipient pubkey deployedAt, tokens⟩ txs).Solvent d ∧
    ∀ (sender : Address) (now : Nat) (call : Call) (c' : Chain), call.Settles →
      (Chain.run d ⟨Pool.initial owner feeRecipient pubkey deployedAt, tokens⟩ txs).exec d sender now call = .ok c' →
      ∀ t, c'.pool.owed t =
        (Chain.run d ⟨Pool.initial owner feeRecipient pubkey deployedAt, tokens⟩ txs).pool.owed t := by
  refine ⟨run_solvent_of (fun t => ?_), fun sender now call c' hcall h => exec_settles_owed hcall h⟩
  simp [Pool.owed, Pool.initial, Ledger.total_zero]

end Chain

namespace Onchain

/-- A deployment whose verifiers accept, over tokens of 18 decimals. -/
def deployment : Deployment where
  this := 1
  settlementDomain := 7
  domainId := fun _ id => id
  decimals := fun _ => 18
  hasCode := fun _ => true
  verifyProof := fun _ _ => true
  verifyIvcProof := fun _ _ _ _ _ => true
  poseidon5 := fun acc bid ask price size => acc * 31 + bid * 7 + ask * 5 + price * 3 + size
  modExp := fun base exponent modulus => some (base ^ exponent % modulus)

/-- Account 6 holds the token 3 when the contract is deployed. -/
def start : Chain := ⟨Pool.initial 2 6 [] 0, fun t a => if t = 3 ∧ a = 6 then 10 ^ 20 else 0⟩

/-- The owner 2 arms both settlement arms for operator 4, and account 6 reserves. -/
def setup : List (Address × Nat × Call) :=
  [(2, 0, .setTokenAllowed 3 true), (2, 0, .addOperator 4), (2, 0, .setIvcVerifier 5), (2, 0, .setIvcEnabled true),
   (6, 0, .deposit 3 (10 ^ 19) true), (6, 0, .reserve 3 (5 * 10 ^ 18))]

/-- Account 6 trades with itself, in one token, and receives the fee. -/
def selfMatch : SolMatch := ⟨11, 12, 6, 6, 3, 3, 10 ^ 18, 10 ^ 18⟩

/-- The public inputs of a batch of one match. -/
def oneMatch : Vector Nat 6 := #v[1, 0, 0, 0, 0, 0]

/-- The state a session starts in. -/
def sessionStart : Vector Nat 5 := #v[0, 0, 0, 7, 0]

def selfBatch : Call := .submitBatch 21 31 (List.replicate 256 0) oneMatch [selfMatch]

end Onchain

open Onchain in
theorem Chain.run_solvent_selfMatch :
    ∃ c', (Chain.run deployment start setup).exec deployment 4 0 selfBatch = .ok c' ∧
      ∀ t, c'.pool.owed t = (Chain.run deployment start setup).pool.owed t := by
  have hok : ((Chain.run deployment start setup).exec deployment 4 0 selfBatch).toOption.isSome = true := by
    decide +kernel
  obtain ⟨c', h⟩ := exists_ok_of_isSome hok
  exact ⟨c', h, (Chain.run_solvent deployment 2 6 [] 0 start.tokens setup).2 4 0 selfBatch c' trivial h⟩

end DarkPool
