import DarkPool.Lib.HashChain
import DarkPool.SettlementRows
import DarkPool.SettlementEffect
import DarkPool.StepCircuit

namespace DarkPool

open HashChain

/-- The tuple that the contract hashes of a match. -/
def SolMatch.row (m : SolMatch) : SettlementRow where
  bidAddr := (m.bidTrader.toNat : Fr)
  askAddr := (m.askTrader.toNat : Fr)
  price := (m.price / weiToCircuitScale : Nat)
  size := (m.size / weiToCircuitScale : Nat)

/-- The amounts of a match are `uint256`. -/
def SolMatch.Uint (m : SolMatch) : Prop := m.price < 2 ^ 256 ∧ m.size < 2 ^ 256

/-- The two matches agree in what the chain hashes. -/
structure SolMatch.SameBound (m m' : SolMatch) : Prop where
  bidTrader : m.bidTrader = m'.bidTrader
  askTrader : m.askTrader = m'.askTrader
  price : m.price = m'.price
  size : m.size = m'.size

/-- No hash of the chains of the two arrays collides with another or with the seed. -/
def ChainsApart (env : Env) (domain : Fr) (rows rows' : List SettlementRow) : Prop :=
  CollisionFree (SettlementRow.chain env) domain
    (inputs (SettlementRow.chain env) domain rows ++ inputs (SettlementRow.chain env) domain rows')

section Chain

variable {env : Env} {d : Deployment} {domain : Fr}

theorem natCast_inj_of_lt {a b : Nat} (ha : a < scalarModulus) (hb : b < scalarModulus) (h : (a : Fr) = b) : a = b := by
  rw [← ZMod.val_natCast_of_lt ha, ← ZMod.val_natCast_of_lt hb, h]

theorem toNat_lt_modulus (a : Address) : a.toNat < scalarModulus := a.isLt.trans (by decide)

/-- A scaled-down amount is below the modulus, so reducing it changes nothing. -/
theorem scaled_lt_modulus {n : Nat} (hn : n < 2 ^ 256) : n / weiToCircuitScale < scalarModulus :=
  (Nat.div_le_div_right hn.le).trans_lt (by decide)

theorem eq_of_scaled {n m : Nat} (hn : n < 2 ^ 256) (hm : m < 2 ^ 256) (hgrid : n % weiToCircuitScale = 0)
    (hgrid' : m % weiToCircuitScale = 0)
    (h : ((n / weiToCircuitScale : Nat) : Fr) = (m / weiToCircuitScale : Nat)) : n = m := by
  have hdiv := natCast_inj_of_lt (scaled_lt_modulus hn) (scaled_lt_modulus hm) h
  rw [← Nat.div_mul_cancel (Nat.dvd_of_mod_eq_zero hgrid), hdiv, Nat.div_mul_cancel (Nat.dvd_of_mod_eq_zero hgrid')]

/-- On the grid, the hashed tuple determines the parties and the amounts. -/
theorem SolMatch.sameBound_of_row {m m' : SolMatch} (hm : m.Uint) (hm' : m'.Uint)
    (hgrid : m.price % weiToCircuitScale = 0 ∧ m.size % weiToCircuitScale = 0)
    (hgrid' : m'.price % weiToCircuitScale = 0 ∧ m'.size % weiToCircuitScale = 0) (h : m.row = m'.row) :
    m.SameBound m' where
  bidTrader := BitVec.eq_of_toNat_eq
    (natCast_inj_of_lt (toNat_lt_modulus _) (toNat_lt_modulus _) (congrArg SettlementRow.bidAddr h))
  askTrader := BitVec.eq_of_toNat_eq
    (natCast_inj_of_lt (toNat_lt_modulus _) (toNat_lt_modulus _) (congrArg SettlementRow.askAddr h))
  price := eq_of_scaled hm.1 hm'.1 hgrid.1 hgrid'.1 (congrArg SettlementRow.price h)
  size := eq_of_scaled hm.2 hm'.2 hgrid.2 hgrid'.2 (congrArg SettlementRow.size h)

theorem poseidon5_row (hd : d.Mirrors env domain) {m : SolMatch} (hm : m.Uint) (acc : Fr) :
    d.poseidon5 acc.val m.bidTrader.toNat m.askTrader.toNat (m.price / weiToCircuitScale) (m.size / weiToCircuitScale) =
      (m.row.chain env acc).val := by
  have hrow := hd.poseidon acc m.row.bidAddr m.row.askAddr m.row.price m.row.size
  simp only [SolMatch.row, ZMod.val_natCast_of_lt (toNat_lt_modulus _), ZMod.val_natCast_of_lt (scaled_lt_modulus hm.1),
    ZMod.val_natCast_of_lt (scaled_lt_modulus hm.2)] at hrow
  exact hrow

/-- The contract's chain is the prover's over the tuples of the array. -/
theorem settlementChain_eq_ok (hd : d.Mirrors env domain) {ms : List SolMatch} (hms : ∀ m ∈ ms, m.Uint) {acc : Fr} {v : Nat}
    (h : settlementChain d acc.val ms = .ok v) :
    (∀ m ∈ ms, m.price % weiToCircuitScale = 0 ∧ m.size % weiToCircuitScale = 0) ∧
      v = (settlementChainNative env acc (ms.map SolMatch.row)).val := by
  induction ms generalizing acc with
  | nil => exact ⟨by simp, (Except.ok.inj h).symm⟩
  | cons m ms ih =>
    obtain ⟨_, hgrid, h⟩ := bind_eq_ok.mp h
    rw [poseidon5_row hd (hms m List.mem_cons_self)] at h
    obtain ⟨hgrids, hv⟩ := ih (fun m' hm' => hms m' (List.mem_cons_of_mem m hm')) h
    exact ⟨List.forall_mem_cons.mpr ⟨require_eq_ok.mp hgrid, hgrids⟩, hv⟩

/-- Arrays whose chains agree agree, match by match, in what the chain hashes. -/
theorem sameBound_of_chain (hd : d.Mirrors env domain) {ms ms' : List SolMatch} (hms : ∀ m ∈ ms, m.Uint)
    (hms' : ∀ m ∈ ms', m.Uint) (hapart : ChainsApart env domain (ms.map SolMatch.row) (ms'.map SolMatch.row)) {v : Nat}
    (h : settlementChain d d.settlementDomain ms = .ok v) (h' : settlementChain d d.settlementDomain ms' = .ok v) :
    List.Forall₂ SolMatch.SameBound ms ms' := by
  rw [hd.domain] at h h'
  obtain ⟨hgrid, hv⟩ := settlementChain_eq_ok hd hms h
  obtain ⟨hgrid', hv'⟩ := settlementChain_eq_ok hd hms' h'
  have hrows : ms.map SolMatch.row = ms'.map SolMatch.row :=
    hapart.eq_of_foldl_eq (ZMod.val_injective scalarModulus (hv.symm.trans hv'))
  have heq : List.Forall₂ Eq (ms.map SolMatch.row) (ms'.map SolMatch.row) := by rw [List.forall₂_eq_eq_eq, hrows]
  have hforall : List.Forall₂ (fun m m' => m.row = m'.row) ms ms' :=
    List.forall₂_map_left_iff.mp (List.forall₂_map_right_iff.mp heq)
  refine (List.forall₂_iff_zip.mpr ⟨hforall.length_eq, fun hmem => ?_⟩)
  obtain ⟨hm, hm'⟩ := List.of_mem_zip hmem
  exact SolMatch.sameBound_of_row (hms _ hm) (hms' _ hm') (hgrid _ hm) (hgrid' _ hm')
    ((List.forall₂_iff_zip.mp hforall).2 hmem)

end Chain

/-- The two matches trade the same tokens. -/
def SolMatch.SameTokens (m m' : SolMatch) : Prop := m.baseToken = m'.baseToken ∧ m.quoteToken = m'.quoteToken

section Effect

variable {d : Deployment}

theorem amounts_congr {m m' : SolMatch} (hbound : m.SameBound m') (htokens : m.SameTokens m') :
    amounts d m = amounts d m' := by
  unfold amounts legs
  rw [hbound.price, hbound.size, htokens.1, htokens.2]

theorem totals_congr {ms ms' : List SolMatch} (hbound : List.Forall₂ SolMatch.SameBound ms ms')
    (htokens : List.Forall₂ SolMatch.SameTokens ms ms') (recipient a t : Address) :
    debits d ms a t = debits d ms' a t ∧ receipts d recipient ms a t = receipts d recipient ms' a t := by
  induction hbound with
  | nil => exact ⟨rfl, rfl⟩
  | @cons m m' ms ms' hm _ ih =>
    obtain ⟨ht, hrest⟩ := List.forall₂_cons.mp htokens
    obtain ⟨hd, hr⟩ := ih hrest
    have hamounts := amounts_congr (d := d) hm ht
    simp only [debits, receipts, List.map_cons, List.sum_cons] at hd hr ⊢
    rw [hd, hr]
    simp only [debit, receive, hamounts, hm.bidTrader, hm.askTrader, ht.1, ht.2, and_self]

theorem settleAuction_chain {p p' : Pool} {sender : Address} {sessionId auctionId : Bytes32} {ms : List SolMatch}
    (h : settleAuction d p sender sessionId auctionId ms = .ok p') :
    settlementChain d d.settlementDomain ms = .ok (p.sessionSettlementAcc (d.domainId "session" sessionId)) := by
  simp only [settleAuction, bind_eq_ok, require_eq_ok] at h
  obtain ⟨_, -, _, -, _, -, _, -, _, -, _, -, _, -, _, -, acc, hacc, _, hbind, -⟩ := h
  rw [hacc, hbind]

/-- Two arrays that one proved session accepts agree in everything the chain binds, but not in their
tokens: they change the accounts alike exactly if they pay and receive the same totals, as they do
when they also trade the same tokens. -/
theorem settleAuction_same_iff (env : Env) (d : Deployment) (domain : Fr) (hd : d.Mirrors env domain) (p p1 p2 : Pool)
    (sender sender' : Address) (sessionId sessionId' auctionId auctionId' : Bytes32) (ms ms' : List SolMatch)
    (hms : ∀ m ∈ ms, m.Uint) (hms' : ∀ m ∈ ms', m.Uint)
    (hapart : ChainsApart env domain (ms.map SolMatch.row) (ms'.map SolMatch.row))
    (hacc : p.sessionSettlementAcc (d.domainId "session" sessionId) =
      p.sessionSettlementAcc (d.domainId "session" sessionId'))
    (h : settleAuction d p sender sessionId auctionId ms = .ok p1)
    (h' : settleAuction d p sender' sessionId' auctionId' ms' = .ok p2) :
    List.Forall₂ SolMatch.SameBound ms ms' ∧
    (p1.SameAccounts p2 ↔ ∀ a t, debits d ms a t = debits d ms' a t ∧
      receipts d p.feeRecipient ms a t = receipts d p.feeRecipient ms' a t) ∧
    (List.Forall₂ SolMatch.SameTokens ms ms' → p1.SameAccounts p2) := by
  have hbinds : settlementChain d d.settlementDomain ms = .ok (p.sessionSettlementAcc (d.domainId "session" sessionId)) ∧
      settlementChain d d.settlementDomain ms' = .ok (p.sessionSettlementAcc (d.domainId "session" sessionId')) :=
    ⟨settleAuction_chain h, settleAuction_chain h'⟩
  have hbound := sameBound_of_chain hd hms hms' hapart hbinds.1 (hacc ▸ hbinds.2)
  have hiff := settleMatches_same_iff (settleAuction_settles h) (settleAuction_settles h') ⟨rfl, rfl, rfl⟩
  exact ⟨hbound, hiff, fun htokens => hiff.mpr (fun a t => totals_congr hbound htokens p.feeRecipient a t)⟩

end Effect

namespace Onchain

open Fills

/-- The contract hashes as the prover does. -/
def mirrored : Deployment :=
  { deployment with poseidon5 := fun acc bid ask price size => (plainEnv.poseidon [(acc : Fr), bid, ask, price, size]).val }

theorem mirrored_mirrors : mirrored.Mirrors plainEnv 7 where
  domain := by decide
  poseidon := by simp [mirrored]

/-- The match of account 6 with itself, in the token 8 instead of 3. -/
def otherMatch : SolMatch := { selfMatch with baseToken := 8, quoteToken := 8 }

/-- The session that proves the match, whatever its tokens. -/
def boundSession : Session :=
  ⟨21, [], sessionStart, #v[0, 0, 0, mirrored.poseidon5 7 6 6 (10 ^ 8) (10 ^ 8), 0], 1, 0⟩

/-- Account 6 has collateral in two tokens when the session is submitted. -/
def proved : Chain :=
  Chain.run mirrored ⟨Pool.initial 2 6 [] 0, fun t a => if (t = 3 ∨ t = 8) ∧ a = 6 then 10 ^ 20 else 0⟩
    (setup ++ [(2, 0, .setTokenAllowed 8 true), (6, 0, .deposit 8 (10 ^ 19) true), (6, 0, .reserve 8 (5 * 10 ^ 18)),
      (4, 0, .submitSession boundSession)])

end Onchain

open Onchain Fills in
/-- One proved session settles in either token. -/
theorem settleAuction_other_tokens :
    ∃ p1 p2, settleAuction mirrored proved.pool 4 21 31 [selfMatch] = .ok p1 ∧
      settleAuction mirrored proved.pool 4 21 31 [otherMatch] = .ok p2 ∧
      ChainsApart plainEnv 7 [selfMatch.row] [otherMatch.row] ∧ ¬ p1.SameAccounts p2 := by
  have h1 : (settleAuction mirrored proved.pool 4 21 31 [selfMatch]).toOption.any
      (fun p => p.reserved 6 3 == 3 * 10 ^ 18) = true := by decide
  have h2 : (settleAuction mirrored proved.pool 4 21 31 [otherMatch]).toOption.any
      (fun p => p.reserved 6 3 == 5 * 10 ^ 18) = true := by decide
  obtain ⟨p1, hp1, hr1⟩ := exists_ok_of_any h1
  obtain ⟨p2, hp2, hr2⟩ := exists_ok_of_any h2
  refine ⟨p1, p2, hp1, hp2, ⟨by decide, by decide⟩, fun hsame => ?_⟩
  rw [hsame.reserved, beq_iff_eq.mp hr2] at hr1
  exact absurd hr1 (by decide)

open Onchain Fills in
theorem settleAuction_same_selfMatch :
    ∃ p1 p2, settleAuction mirrored proved.pool 4 21 31 [selfMatch] = .ok p1 ∧
      settleAuction mirrored proved.pool 4 21 32 [selfMatch] = .ok p2 ∧ p1.SameAccounts p2 := by
  have h1 : (settleAuction mirrored proved.pool 4 21 31 [selfMatch]).toOption.isSome = true := by decide
  have h2 : (settleAuction mirrored proved.pool 4 21 32 [selfMatch]).toOption.isSome = true := by decide
  obtain ⟨p1, hp1⟩ := exists_ok_of_isSome h1
  obtain ⟨p2, hp2⟩ := exists_ok_of_isSome h2
  have huint : ∀ m ∈ [selfMatch], m.Uint := by simp [SolMatch.Uint, selfMatch]
  exact ⟨p1, p2, hp1, hp2, (settleAuction_same_iff plainEnv mirrored 7 mirrored_mirrors proved.pool p1 p2 4 4 21 21 31 32
    [selfMatch] [selfMatch] huint huint ⟨by decide, by decide⟩ rfl hp1 hp2).2.2 (.cons ⟨rfl, rfl⟩ .nil)⟩

end DarkPool
