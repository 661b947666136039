import Mathlib.Data.Nat.Cast.Order.Field
import DarkPool.BatchMatches

namespace DarkPool

section Scaling

/-- A wei amount in the units of a token of at most eighteen decimals is cut once. -/
theorem mul_pow_div_wei (x : Nat) {k : Nat} (hk : k ≤ 18) : x * 10 ^ k / 10 ^ 18 = x / 10 ^ (18 - k) := by
  have hpow : 10 ^ 18 = 10 ^ (18 - k) * 10 ^ k := by rw [← pow_add, Nat.sub_add_cancel hk]
  rw [hpow, Nat.mul_div_mul_right _ _ (by positivity)]

/-- The two cuts of the notional are one. -/
theorem notional_div (x : Nat) {k : Nat} (hk : k ≤ 18) : x / 10 ^ 18 * 10 ^ k / 10 ^ 18 = x * 10 ^ k / 10 ^ 36 := by
  have hpow : 10 ^ 36 = 10 ^ 18 * 10 ^ (18 - k) * 10 ^ k := by
    rw [Nat.mul_assoc, ← pow_add, Nat.sub_add_cancel hk]
    norm_num
  rw [mul_pow_div_wei _ hk, Nat.div_div_eq_div_mul, hpow, Nat.mul_div_mul_right _ _ (by positivity)]

/-- A truncated quotient is less than one below the exact one. -/
theorem abs_div_sub_lt_one (x : Nat) {n : Nat} (hn : 0 < n) : |(x : ℚ) / n - (x / n : ℕ)| < 1 := by
  have hle : ((x / n : ℕ) : ℚ) ≤ (x : ℚ) / n := Nat.cast_div_le
  have hlt : (x : ℚ) / n < (x / n : ℕ) + 1 := by
    rw [div_lt_iff₀ (by exact_mod_cast hn)]
    exact_mod_cast Nat.lt_mul_of_div_lt (Nat.lt_succ_self _) hn
  rw [abs_lt]
  exact ⟨by linarith, by linarith⟩

end Scaling

variable {d : Deployment} {p p' : Pool} {m : SolMatch}

theorem settleMatch_legs (h : settleMatch d p m = .ok p') : legs d m = .ok (amounts d m) := by
  unfold settleMatch at h
  obtain ⟨l, hl, -⟩ := bind_eq_ok.mp h
  rw [hl, amounts_of_legs hl]

/-- What `price * size` is in raw units of the quote token. -/
def exactNotional (d : Deployment) (m : SolMatch) : ℚ :=
  (m.price / 10 ^ 18) * (m.size / 10 ^ 18) * 10 ^ (d.decimals m.quoteToken).toNat

/-- Both tokens move, and the quote paid is the exact notional short of a raw unit. -/
structure TwoSided (d : Deployment) (m : SolMatch) : Prop where
  base : 0 < (amounts d m).baseAmount
  quote : 0 < (amounts d m).notional
  exact : |exactNotional d m - (amounts d m).notional| < 1

theorem abs_exactNotional_sub_lt_one (hl : legs d m = .ok (amounts d m)) (hquote : (d.decimals m.quoteToken).toNat ≤ 18) :
    |exactNotional d m - (amounts d m).notional| < 1 := by
  obtain ⟨-, -, -, hn, -⟩ := legs_eq_ok hl
  have hexact : exactNotional d m =
      ((m.price * m.size * 10 ^ (d.decimals m.quoteToken).toNat : ℕ) : ℚ) / (10 ^ 36 : ℕ) := by
    unfold exactNotional
    push_cast
    ring
  rw [hn, notional_div _ hquote, hexact]
  exact abs_div_sub_lt_one _ (by positivity)

/-- A settled match moves both tokens exactly if its size is a raw unit of the base token, and its
notional one of the quote token. -/
theorem settleMatch_twoSided_iff (d : Deployment) (p p' : Pool) (m : SolMatch)
    (hquote : (d.decimals m.quoteToken).toNat ≤ 18) (h : settleMatch d p m = .ok p') :
    (∀ a t, p.Pays p' a t (debit d m a t) (receive d p.feeRecipient m a t)) ∧
      (TwoSided d m ↔ 10 ^ 18 ≤ m.size * 10 ^ (d.decimals m.baseToken).toNat ∧
        10 ^ 36 ≤ m.price * m.size * 10 ^ (d.decimals m.quoteToken).toNat) := by
  have hl := settleMatch_legs h
  obtain ⟨-, -, hb, hn, -⟩ := legs_eq_ok hl
  rw [notional_div _ hquote] at hn
  refine ⟨settleMatch_pays h, fun hsided => ⟨?_, ?_⟩, fun hunits => ⟨?_, ?_, ?_⟩⟩
  · have hpos := hsided.base
    rw [hb] at hpos
    exact (Nat.div_pos_iff.mp hpos).2
  · have hpos := hsided.quote
    rw [hn] at hpos
    exact (Nat.div_pos_iff.mp hpos).2
  · rw [hb]
    exact Nat.div_pos hunits.1 (by positivity)
  · rw [hn]
    exact Nat.div_pos hunits.2 (by positivity)
  · exact abs_exactNotional_sub_lt_one hl hquote

namespace Onchain

/-- Token 3 has six decimals, all others eighteen. -/
def sixDecimals : Deployment := { deployment with decimals := fun t => if t = 3 then 6 else 18 }

/-- Account 6 has collateral in the base token 3, account 7 in the quote token 8. -/
def collateral : Pool :=
  { Pool.initial 2 9 [] 0 with
    reserved := fun a t => if a = 6 ∧ t = 3 then 10 ^ 12 else if a = 7 ∧ t = 8 then 10 ^ 24 else 0 }

/-- Account 7 buys `size` of token 3 from account 6, at a price of 10^8. -/
def purchase (size : Nat) : SolMatch := ⟨11, 12, 7, 6, 3, 8, 10 ^ 26, size⟩

end Onchain

open Onchain in
/-- A size of 1e-8 is less than a raw unit of six decimals: the buyer pays a whole quote token and gets nothing. -/
theorem settleMatch_one_sided :
    (purchase (10 ^ 10)).price % weiToCircuitScale = 0 ∧ (purchase (10 ^ 10)).size % weiToCircuitScale = 0 ∧
    (settleMatch sixDecimals collateral (purchase (10 ^ 10))).toOption.any (fun p =>
      p.reserved 7 8 = collateral.reserved 7 8 - 10 ^ 18 ∧ p.balances 7 3 = 0 ∧
        p.reserved 6 3 = collateral.reserved 6 3) ∧
    ¬ TwoSided sixDecimals (purchase (10 ^ 10)) := by
  refine ⟨by decide, by decide, by decide, fun h => ?_⟩
  have hzero : (amounts sixDecimals (purchase (10 ^ 10))).baseAmount = 0 := by decide
  exact absurd h.base (by omega)

open Onchain in
/-- A size of one millionth is a raw unit of six decimals. -/
theorem settleMatch_twoSided_unit : ∃ p', settleMatch sixDecimals collateral (purchase (10 ^ 12)) = .ok p' ∧
    TwoSided sixDecimals (purchase (10 ^ 12)) := by
  have hok : (settleMatch sixDecimals collateral (purchase (10 ^ 12))).toOption.isSome = true := by decide
  obtain ⟨p', h⟩ := exists_ok_of_isSome hok
  exact ⟨p', h, (settleMatch_twoSided_iff sixDecimals collateral p' (purchase (10 ^ 12)) (by decide) h).2.mpr (by decide)⟩

section Within

theorem legs_ok (hbase : 10 ^ (d.decimals m.baseToken).toNat < 2 ^ 256)
    (hsize : m.size * 10 ^ (d.decimals m.baseToken).toNat < 2 ^ 256)
    (hquote : 10 ^ (d.decimals m.quoteToken).toNat < 2 ^ 256) (hproduct : m.price * m.size < 2 ^ 256)
    (hnotional : m.price * m.size / 10 ^ 18 * 10 ^ (d.decimals m.quoteToken).toNat < 2 ^ 256)
    (hfee : m.price * m.size / 10 ^ 18 * 10 ^ (d.decimals m.quoteToken).toNat / 10 ^ 18 * protocolFeeBps < 2 ^ 256) :
    legs d m = .ok (amounts d m) := by
  have hl : ∃ l, legs d m = .ok l := by
    unfold legs
    exact ⟨_, bind_eq_ok.mpr ⟨_, checked_eq_ok.mpr ⟨hbase, rfl⟩, bind_eq_ok.mpr ⟨_, checked_eq_ok.mpr ⟨hsize, rfl⟩,
      bind_eq_ok.mpr ⟨_, checked_eq_ok.mpr ⟨hquote, rfl⟩, bind_eq_ok.mpr ⟨_, checked_eq_ok.mpr ⟨hproduct, rfl⟩,
      bind_eq_ok.mpr ⟨_, checked_eq_ok.mpr ⟨hnotional, rfl⟩, bind_eq_ok.mpr ⟨_, checked_eq_ok.mpr ⟨hfee, rfl⟩, rfl⟩⟩⟩⟩⟩⟩⟩
  obtain ⟨l, hl⟩ := hl
  rw [hl, amounts_of_legs hl]

theorem decimalPow_le {n : Nat} {x : Decimal} (h : decimalPow n = .ok x) : n ≤ 28 := by
  cases n with
  | zero => omega
  | succ n =>
    obtain ⟨divisor, hdivisor, h⟩ := bind_eq_ok.mp h
    obtain ⟨hle, -⟩ := guard_eq_ok.mp h
    rw [decimalPow_eq_ok hdivisor, ← pow_succ, not_lt] at hle
    by_contra hn
    have hbig : (10 : ℚ) ^ 29 ≤ 10 ^ (n + 1) := pow_le_pow_right₀ (by norm_num) (by omega)
    unfold maxDecimal at hle
    norm_num at hle hbig
    linarith

theorem rawToDecimal_eq_ok {raw n : Nat} {b : Decimal} (h : rawToDecimal raw n = .ok b) :
    n ≤ 28 ∧ b * 10 ^ n = raw := by
  obtain ⟨divisor, hdivisor, h⟩ := bind_eq_ok.mp (guard_eq_ok.mp h).2
  have hb : raw / divisor = b := Except.ok.inj h
  refine ⟨decimalPow_le hdivisor, ?_⟩
  rw [← hb, decimalPow_eq_ok hdivisor]
  exact div_mul_cancel₀ _ (by positivity)

/-- A balance that covers an amount at a scale covers it in raw units. -/
theorem raw_covers {raw n amount k : Nat} {b : Decimal} (h : rawToDecimal raw n = .ok b)
    (hle : (amount : ℚ) ≤ b * 10 ^ k) : amount * 10 ^ n ≤ raw * 10 ^ k := by
  have hraw := (rawToDecimal_eq_ok h).2
  have hmul : (amount : ℚ) * 10 ^ n ≤ raw * 10 ^ k := by
    calc (amount : ℚ) * 10 ^ n ≤ b * 10 ^ k * 10 ^ n := by gcongr
      _ = raw * 10 ^ k := by rw [← hraw]; ring
  exact_mod_cast hmul

theorem pow_decimals_lt {n k : Nat} (hn : n ≤ 28) (hk : k < 2 ^ 128) : k * 10 ^ n < 2 ^ 256 :=
  calc k * 10 ^ n ≤ k * 10 ^ 28 := Nat.mul_le_mul_left k (Nat.pow_le_pow_right (by norm_num) hn)
    _ < 2 ^ 128 * 10 ^ 28 := Nat.mul_lt_mul_of_pos_right hk (by positivity)
    _ < 2 ^ 256 := by norm_num

/-- With the debits within the collateral and the books within a word, a match settles. -/
theorem settleMatch_ok (hl : legs d m = .ok (amounts d m)) (htokens : m.baseToken ≠ m.quoteToken)
    (hquote : (amounts d m).notional ≤ p.reserved m.bidTrader m.quoteToken)
    (hbase : (amounts d m).baseAmount ≤ p.reserved m.askTrader m.baseToken) (howed : ∀ t, p.owed t < 2 ^ 256) :
    ∃ p', settleMatch d p m = .ok p' := by
  have hfee : (amounts d m).fee ≤ (amounts d m).notional := by
    rw [(legs_eq_ok hl).2.2.2.2]
    unfold protocolFeeBps bpsDenominator
    omega
  have hfits : ∀ a a' t n, n ≤ p.reserved a' t → p.balances a t + n < 2 ^ 256 := by
    intro a a' t n hn
    have hb := Ledger.le_total p.balances a t
    have hr := Ledger.le_total p.reserved a' t
    have := howed t
    unfold Pool.owed at this
    omega
  generalize amounts d m = l at hl hquote hbase hfee
  obtain ⟨p1, h1⟩ := Pool.consumeReserved_ok hquote
  have e1 := Pool.consumeReserved_pays h1
  obtain ⟨p2, h2⟩ := Pool.credit_ok (p := p1) (a := m.bidTrader) (t := m.baseToken) (n := l.baseAmount)
    (by rw [(e1 _ _).balances]; exact hfits _ _ _ _ hbase)
  have e2 := fun a t => (e1 a t).trans (Pool.credit_pays h2 a t)
  obtain ⟨p3, h3⟩ := Pool.consumeReserved_ok (p := p2) (a := m.askTrader) (t := m.baseToken) (n := l.baseAmount)
    (by rw [(e2 _ _).reserved, if_neg (fun h => htokens h.2)]; exact hbase)
  have e3 := fun a t => (e2 a t).trans (Pool.consumeReserved_pays h3 a t)
  have b3 : ∀ a, p3.balances a m.quoteToken = p.balances a m.quoteToken := by
    intro a
    rw [(e3 _ _).balances, if_neg (fun h => htokens h.2.symm)]
    rfl
  obtain ⟨p4, h4⟩ := Pool.credit_ok (p := p3) (a := m.askTrader) (t := m.quoteToken) (n := l.notional - l.fee)
    (by rw [b3]; exact hfits m.askTrader m.bidTrader m.quoteToken _ (by omega))
  obtain ⟨p5, h5⟩ := Pool.credit_ok (p := p4) (a := p4.feeRecipient) (t := m.quoteToken) (n := l.fee) (by
    have hroom := hfits p4.feeRecipient _ _ _ hquote
    rw [(Pool.credit_pays h4 _ _).balances, b3]
    split <;> omega)
  refine ⟨p5, ?_⟩
  unfold settleMatch
  exact bind_eq_ok.mpr ⟨_, hl, bind_eq_ok.mpr ⟨_, checkedSub_eq_ok.mpr ⟨hfee, rfl⟩, bind_eq_ok.mpr ⟨p1, h1,
    bind_eq_ok.mpr ⟨p2, h2, bind_eq_ok.mpr ⟨p3, h3, bind_eq_ok.mpr ⟨p4, h4, h5⟩⟩⟩⟩⟩⟩

end Within

/-- A match whose legs the oracle's balances cover at the scale of the circuit is covered on chain. -/
theorem settleMatch_covered (d : Deployment) (p : Pool) (m : SolMatch) (price size : Nat) (bidBalance askBalance : Decimal)
    (hpriceRange : price < maxEncoded) (hsizeRange : size < maxEncoded)
    (hprice : m.price = price * weiToCircuitScale) (hsize : m.size = size * weiToCircuitScale)
    (htokens : m.baseToken ≠ m.quoteToken)
    (hbid : rawToDecimal (p.reserved m.bidTrader m.quoteToken) (d.decimals m.quoteToken).toNat = .ok bidBalance)
    (hask : rawToDecimal (p.reserved m.askTrader m.baseToken) (d.decimals m.baseToken).toNat = .ok askBalance)
    (hbidCovers : (price * size : ℚ) ≤ bidBalance * scaleFactor * scaleFactor)
    (haskCovers : (size : ℚ) ≤ askBalance * scaleFactor) :
    legs d m = .ok (amounts d m) ∧ (amounts d m).notional ≤ p.reserved m.bidTrader m.quoteToken ∧
      (amounts d m).baseAmount ≤ p.reserved m.askTrader m.baseToken ∧
      ((∀ t, p.owed t < 2 ^ 256) → ∃ p', settleMatch d p m = .ok p') := by
  obtain ⟨hqd, -⟩ := rawToDecimal_eq_ok hbid
  obtain ⟨hbd, -⟩ := rawToDecimal_eq_ok hask
  have hquoteRaw : price * size * 10 ^ (d.decimals m.quoteToken).toNat ≤
      p.reserved m.bidTrader m.quoteToken * 10 ^ 16 := raw_covers hbid (by
    push_cast
    refine hbidCovers.trans_eq ?_
    unfold scaleFactor
    ring)
  have hbaseRaw : size * 10 ^ (d.decimals m.baseToken).toNat ≤ p.reserved m.askTrader m.baseToken * 10 ^ 8 :=
    raw_covers hask (by
    refine haskCovers.trans_eq ?_
    unfold scaleFactor
    ring)
  have hproduct : price * size < 2 ^ 120 := by
    calc price * size < maxEncoded * maxEncoded := Nat.mul_lt_mul'' hpriceRange hsizeRange
      _ = 2 ^ 120 := by decide
  have hwei : m.price * m.size / 10 ^ 18 = price * size * 100 := by
    have : m.price * m.size = price * size * 100 * 10 ^ 18 := by
      rw [hprice, hsize, weiToCircuitScale]
      ring
    rw [this, Nat.mul_div_cancel _ (by positivity)]
  have hquoteLt := pow_decimals_lt hqd (k := price * size * 100) (by omega)
  have hl : legs d m = .ok (amounts d m) := by
    refine legs_ok ?_ ?_ ?_ ?_ ?_ ?_
    · simpa using pow_decimals_lt hbd (k := 1) (by norm_num)
    · rw [hsize]
      refine pow_decimals_lt hbd ?_
      unfold maxEncoded weiToCircuitScale at *
      omega
    · simpa using pow_decimals_lt hqd (k := 1) (by norm_num)
    · rw [hprice, hsize]
      unfold weiToCircuitScale
      calc price * 10 ^ 10 * (size * 10 ^ 10) = price * size * 10 ^ 20 := by ring
        _ < 2 ^ 256 := by omega
    · rw [hwei]
      exact hquoteLt
    · rw [hwei]
      unfold protocolFeeBps
      omega
  obtain ⟨-, -, hb, hn, -⟩ := legs_eq_ok hl
  have hquote : (amounts d m).notional ≤ p.reserved m.bidTrader m.quoteToken := by
    rw [hn, hwei]
    refine Nat.div_le_of_le_mul ?_
    rw [Nat.mul_right_comm]
    omega
  have hbase : (amounts d m).baseAmount ≤ p.reserved m.askTrader m.baseToken := by
    rw [hb, hsize, weiToCircuitScale]
    refine Nat.div_le_of_le_mul ?_
    rw [Nat.mul_right_comm]
    omega
  exact ⟨hl, hquote, hbase, settleMatch_ok hl htokens hquote hbase⟩

open Onchain in
/-- Account 7 buys a hundredth of token 3 at 10^8 with its whole collateral of a million. -/
theorem settleMatch_covered_whole :
    (amounts sixDecimals (purchase (10 ^ 16))).notional = collateral.reserved 7 8 ∧
    (amounts sixDecimals (purchase (10 ^ 16))).notional ≤ collateral.reserved 7 8 ∧
    (amounts sixDecimals (purchase (10 ^ 16))).baseAmount ≤ collateral.reserved 6 3 := by
  have h := settleMatch_covered sixDecimals collateral (purchase (10 ^ 16)) (10 ^ 16) (10 ^ 6) (10 ^ 6) (10 ^ 6)
    (by decide) (by decide) (by decide) (by decide) (by decide) (by decide +kernel) (by decide +kernel)
    (by norm_num [scaleFactor]) (by norm_num [scaleFactor])
  exact ⟨by decide, h.2.1, h.2.2.1⟩

end DarkPool
