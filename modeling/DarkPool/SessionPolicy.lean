import DarkPool.ReplayGuards
import DarkPool.SessionFills
import DarkPool.BoundMatches

namespace DarkPool

/-- The policy the contract stores, as the circuit hashes it. -/
def Pool.policy (p : Pool) : List Fr := [(p.minSize : Fr), (p.minPrice : Fr), (p.positionLimit : Fr)]

/-- The policy the prover assigns to a round. -/
def AuctionExternalInputs.policy (ext : AuctionExternalInputs) : List Fr :=
  [ext.minSize, ext.minPrice, ext.positionLimit]

/-- The verifier accepts a session only if its final state is what steps of the circuit reach from its
initial state; `rounds` are those steps. -/
def IvcSound (env : Env) (d : Deployment) (rounds : Session → List AuctionExternalInputs) : Prop :=
  ∀ verifier s, d.verifyIvcProof verifier s.proof s.z0 s.zN s.nSteps = true →
    ∃ z : Vector Fr 5, SessionConstraints env z (rounds s) ∧ s.nSteps = (rounds s).length ∧
      s.z0 = z.map ZMod.val ∧ s.zN = (sessionState env z (rounds s)).map ZMod.val

/-- The session is proved under the policy of the contract, and no round of it that has a fill clears
below the least price. -/
structure Pool.ProvedUnder (env : Env) (p : Pool) (s : Session) (rounds : List AuctionExternalInputs) : Prop where
  minSize_lt : p.minSize < 2 ^ 60
  policy : s.zN.get zPolicy = (env.poseidon p.policy).val
  clears : ∀ ext ∈ rounds, ext.activeRows ≠ [] → p.minPrice ≤ ext.clearingPrice.val

section Circuit

variable {env : Env}

theorem activeRows_of_boolean {ext : AuctionExternalInputs} (h : ∀ r ∈ ext.rows, r.isActive = 0 ∨ r.isActive = 1) :
    ext.rows.filter (fun r => r.isActive = 1) = ext.activeRows := by
  have hne : (0 : Fr) ≠ 1 := by decide
  refine List.filter_congr (fun r hr => ?_)
  rw [decide_eq_decide]
  rcases h r hr with hr | hr
  · simp [hr, hne]
  · simp [hr, hne.symm]

theorem stepCircuit_settlement {ext : AuctionExternalInputs} (h : ∀ r ∈ ext.rows, r.isActive = 0 ∨ r.isActive = 1)
    (z : Vector Fr 5) :
    (stepCircuit env z ext).get zSettlement =
      settlementChainNative env (z.get zSettlement) (ext.activeRows.map CircuitMatchNative.settlementRow) := by
  have hfold : ext.rows.foldl (settlementAcc env) (z.get zSettlement) = settlementChainNative env (z.get zSettlement)
      ((ext.rows.filter (fun r => r.isActive = 1)).map CircuitMatchNative.settlementRow) := foldl_settlementAcc h (z.get zSettlement)
  rw [activeRows_of_boolean h] at hfold
  exact hfold

variable {rounds : List AuctionExternalInputs}

theorem sessionState_policy (z : Vector Fr 5) : (sessionState env z rounds).get zPolicy = z.get zPolicy := by
  induction rounds generalizing z with
  | nil => rfl
  | cons ext rounds ih => exact (ih (stepCircuit env z ext)).trans (stepCircuit_policy env z ext)

/-- Every round is proved under the policy whose hash the session ends with. -/
theorem SessionConstraints.policy {z : Vector Fr 5} (h : SessionConstraints env z rounds) {ext : AuctionExternalInputs}
    (hext : ext ∈ rounds) : env.poseidon ext.policy = z.get zPolicy := by
  induction rounds generalizing z with
  | nil => cases hext
  | cons ext' rounds ih =>
    rcases List.mem_cons.mp hext with rfl | hext
    · exact h.1.policy
    · exact (ih h.2 hext).trans (stepCircuit_policy env z ext')

/-- A session carries the settlement chain over all its active rows. -/
theorem sessionState_settlement (h : ∀ ext ∈ rounds, ∀ r ∈ ext.rows, r.isActive = 0 ∨ r.isActive = 1) (z : Vector Fr 5) :
    (sessionState env z rounds).get zSettlement =
      settlementChainNative env (z.get zSettlement) ((sessionRows rounds).map CircuitMatchNative.settlementRow) := by
  induction rounds generalizing z with
  | nil => rfl
  | cons ext rounds ih =>
    have hrows : sessionRows (ext :: rounds) = ext.activeRows ++ sessionRows rounds := List.flatMap_cons
    rw [hrows, List.map_append, settlementChainNative, List.foldl_append]
    have hstep : (stepCircuit env z ext).get zSettlement = _ := stepCircuit_settlement (h ext List.mem_cons_self) z
    rw [settlementChainNative] at hstep
    rw [← hstep]
    exact ih (fun ext' hext' => h ext' (List.mem_cons_of_mem ext hext')) (stepCircuit env z ext)

theorem SessionConstraints.active {z : Vector Fr 5} (h : SessionConstraints env z rounds) :
    ∀ ext ∈ rounds, ∀ r ∈ ext.rows, r.isActive = 0 ∨ r.isActive = 1 := by
  induction rounds generalizing z with
  | nil => intro ext hext; cases hext
  | cons ext rounds ih =>
    intro ext' hext' r hr
    rcases List.mem_cons.mp hext' with rfl | hext'
    · exact bit_iff.mp (h.1.rows r hr).activeBit
    · exact ih h.2 ext' hext' r hr

end Circuit

section Accumulator

variable {d : Deployment}

/-- What a submitted session is bound to stays as it is. -/
theorem Chain.run_sessionAcc (c : Chain) (txs : List (Address × Nat × Call)) (key : Bytes32)
    (hsubmitted : c.pool.sessionSubmitted key = true) :
    (c.run d txs).pool.sessionSettlementAcc key = c.pool.sessionSettlementAcc key := by
  rw [Chain.run_eq_attempts]
  refine (Attempts.run_accepted (I := fun (c' : Chain) _ => c'.pool.sessionSubmitted key = true ∧
    c'.pool.sessionSettlementAcc key = c.pool.sessionSettlementAcc key) ?_ ⟨hsubmitted, rfl⟩ txs).2
  rintro t - ⟨sender, now, call⟩ u ⟨hset, hacc⟩ hexec
  have hflags := Chain.exec_flags hexec
  rw [hflags.sessionSubmitted, hflags.sessionSettlementAcc]
  cases call with
  | submitSession s =>
    obtain ⟨p, hp, -⟩ := map_eq_ok.mp hexec
    have hne : key ≠ d.domainId "session" s.sessionId := by
      rintro rfl
      rw [(submitSession_eq_ok hp).1] at hset
      exact Bool.false_ne_true hset
    simp only [Call.mark, Pool.markSession, Function.update_of_ne hne]
    exact ⟨hset, hacc⟩
  | _ => exact ⟨hset, hacc⟩

theorem submitSession_checks {p p' : Pool} {sender : Address} {s : Session} (h : submitSession d p sender s = .ok p') :
    d.verifyIvcProof p.ivcVerifier s.proof s.z0 s.zN s.nSteps = true ∧ s.z0.get zSettlement = d.settlementDomain := by
  simp only [submitSession, bind_eq_ok, require_eq_ok] at h
  obtain ⟨_, -, _, -, _, -, _, -, _, -, _, hverified, _, hdomain, -⟩ := h
  exact ⟨hverified, hdomain⟩

/-- A settled array is bound to the accumulator that its session was submitted with. -/
theorem settleAuction_binds {c1 c2 c4 : Chain} {op op' : Address} {now now' : Nat} {s : Session}
    {mid : List (Address × Nat × Call)} {auctionId : Bytes32} {ms : List SolMatch}
    (hsubmit : c1.exec d op now (.submitSession s) = .ok c2)
    (hsettle : (c2.run d mid).exec d op' now' (.settleAuction s.sessionId auctionId ms) = .ok c4) :
    settlementChain d d.settlementDomain ms = .ok (s.zN.get zSettlement) := by
  have hflags := Chain.exec_flags hsubmit
  obtain ⟨p, hp, -⟩ := map_eq_ok.mp hsettle
  rw [settleAuction_chain hp, Chain.run_sessionAcc, hflags.sessionSettlementAcc]
  · simp [Call.mark, Pool.markSession]
  · rw [hflags.sessionSubmitted]
    simp [Call.mark, Pool.markSession]

end Accumulator

theorem settledRow_scaled {m : SolMatch} (hm : m.Uint) {r : CircuitMatchNative} (h : m.row = r.settlementRow) :
    m.price / weiToCircuitScale = r.matchPrice.val ∧ m.size / weiToCircuitScale = r.matchSize.val := by
  have hprice : ((m.price / weiToCircuitScale : Nat) : Fr) = r.matchPrice := congrArg SettlementRow.price h
  have hsize : ((m.size / weiToCircuitScale : Nat) : Fr) = r.matchSize := congrArg SettlementRow.size h
  rw [← hprice, ← hsize, ZMod.val_natCast_of_lt (scaled_lt_modulus hm.1), ZMod.val_natCast_of_lt (scaled_lt_modulus hm.2)]
  exact ⟨rfl, rfl⟩

/-- The matches of a session that is proved under the contract's policy keep to it, whatever happens
between its submission and its settlement. -/
theorem settleAuction_meets_policy (env : Env) (d : Deployment) (domain : Fr) (hd : d.Mirrors env domain)
    (rounds : Session → List AuctionExternalInputs) (hsound : IvcSound env d rounds) (c1 c2 c4 : Chain)
    (op op' : Address) (now now' : Nat) (s : Session) (mid : List (Address × Nat × Call)) (auctionId : Bytes32)
    (ms : List SolMatch) (hms : ∀ m ∈ ms, m.Uint)
    (hapart : ChainsApart env domain (ms.map SolMatch.row) ((sessionRows (rounds s)).map CircuitMatchNative.settlementRow))
    (hcollision : ∀ ext ∈ rounds s, env.poseidon ext.policy = env.poseidon c1.pool.policy → ext.policy = c1.pool.policy)
    (hsubmit : c1.exec d op now (.submitSession s) = .ok c2)
    (hsettle : (c2.run d mid).exec d op' now' (.settleAuction s.sessionId auctionId ms) = .ok c4)
    (hproved : c1.pool.ProvedUnder env s (rounds s)) :
    ∀ m ∈ ms, c1.pool.minSize ≤ m.size / weiToCircuitScale ∧ c1.pool.minPrice ≤ m.price / weiToCircuitScale := by
  obtain ⟨p, hp, -⟩ := map_eq_ok.mp hsubmit
  obtain ⟨hverified, hdomain⟩ := submitSession_checks hp
  obtain ⟨z, hsession, -, hz0, hzN⟩ := hsound _ s hverified
  have hchain := settleAuction_binds hsubmit hsettle
  have hz3 : z.get zSettlement = domain := by
    refine ZMod.val_injective scalarModulus ?_
    rw [← hd.domain, ← hdomain, hz0, get_map]
  have hrows : ms.map SolMatch.row = (sessionRows (rounds s)).map CircuitMatchNative.settlementRow := by
    refine hapart.eq_of_foldl_eq (ZMod.val_injective scalarModulus ?_)
    rw [hd.domain] at hchain
    have hv := (settlementChain_eq_ok hd hms hchain).2
    have hacc : (sessionState env z (rounds s)).get zSettlement = _ := sessionState_settlement hsession.active z
    rw [hz3] at hacc
    rw [hzN, get_map, hacc] at hv
    exact hv.symm
  intro m hm
  have hrow : m.row ∈ (sessionRows (rounds s)).map CircuitMatchNative.settlementRow := hrows ▸ List.mem_map_of_mem hm
  obtain ⟨r, hr, hmr⟩ := List.mem_map.mp hrow
  obtain ⟨ext, hext, hactiveRow, hconstraints, hactive⟩ := hsession.row hr
  obtain ⟨hprice, hsize⟩ := settledRow_scaled (hms m hm) hmr.symm
  have hpolicy : ext.policy = c1.pool.policy := by
    refine hcollision ext hext (ZMod.val_injective scalarModulus ?_)
    rw [← hproved.policy, hzN, get_map, sessionState_policy, hsession.policy hext]
  have hmin : ext.minSize.val = c1.pool.minSize := by
    rw [(List.cons.inj hpolicy).1, ZMod.val_natCast_of_lt (hproved.minSize_lt.trans (by decide))]
  rw [hprice, hsize, ← hmin, eq_of_gated hactive hconstraints.clearing]
  exact ⟨le_of_gated60 (hmin ▸ hproved.minSize_lt) hactive hconstraints.sizeDiff,
    hproved.clears ext hext (List.ne_nil_of_mem hactiveRow)⟩

namespace Onchain

open Fills

/-- The session of one fill at the price one, under the policy with the given least price. -/
def floorSession (sessionId : Bytes32) (floor : Fr) : Session :=
  let z0 := computeZ0 plainEnv (single floor) (7 : Nat)
  let zN := sessionState plainEnv z0 [single floor]
  ⟨sessionId, [], z0.map ZMod.val, zN.map ZMod.val, 1, (zN.get zPolicy).val⟩

/-- Its verifier accepts two sessions, each of one fill. -/
def floorDeployment : Deployment :=
  { mirrored with
    this := 100
    verifyIvcProof := fun _ _ z0 zN nSteps => [1, 5].any (fun floor =>
      let s := floorSession 0 floor
      z0 == s.z0 && zN == s.zN && nSteps == 1) }

def floorRounds (s : Session) : List AuctionExternalInputs :=
  if s.zN = (floorSession 0 1).zN then [single 1] else [single 5]

def floorMatch : SolMatch := ⟨0, 0, 1, 2, 3, 9, 10 ^ 10, 10 ^ 10⟩

/-- The session is submitted and settled. -/
def settleFloor (c : Chain) (floor : Fr) : Except Revert Chain := do
  let c2 ← c.exec floorDeployment 4 0 (.submitSession (floorSession 21 floor))
  c2.exec floorDeployment 4 0 (.settleAuction 21 31 [floorMatch])

/-- The accounts 1 and 2 have reserved what the fill takes, under the given policy. -/
def floorChain (minSize minPrice : Nat) : Chain :=
  Chain.run floorDeployment
    ⟨Pool.initial 50 60 [] 0, fun t a => if (t = 3 ∧ a = 2) ∨ (t = 9 ∧ a = 1) then 10 ^ 20 else 0⟩
    [(50, 0, .setTokenAllowed 3 true), (50, 0, .setTokenAllowed 9 true), (50, 0, .addOperator 4),
     (50, 0, .setIvcVerifier 5), (50, 0, .setIvcEnabled true), (50, 0, .setPolicy minSize minPrice 10),
     (2, 0, .deposit 3 (10 ^ 12) true), (2, 0, .reserve 3 (10 ^ 12)), (1, 0, .deposit 9 1000 true), (1, 0, .reserve 9 1000)]

theorem floorSession_ne : (floorSession 0 5).zN ≠ (floorSession 0 1).zN := by decide +kernel

theorem floorDeployment_sound : IvcSound plainEnv floorDeployment floorRounds := by
  intro verifier s h
  simp only [floorDeployment, List.any_cons, List.any_nil, Bool.or_false, Bool.or_eq_true, Bool.and_eq_true,
    beq_iff_eq] at h
  rcases h with ⟨⟨hz0, hzN⟩, hn⟩ | ⟨⟨hz0, hzN⟩, hn⟩
  · rw [floorRounds, if_pos hzN]
    exact ⟨computeZ0 plainEnv (single 1) 7, ⟨single_constraints (.inl rfl) 7, trivial⟩, hn, hz0, hzN⟩
  · have hne : s.zN ≠ (floorSession 0 1).zN := fun heq => floorSession_ne (hzN.symm.trans heq)
    rw [floorRounds, if_neg hne]
    exact ⟨computeZ0 plainEnv (single 5) 7, ⟨single_constraints (.inr rfl) 7, trivial⟩, hn, hz0, hzN⟩

theorem floorDeployment_mirrors : floorDeployment.Mirrors plainEnv 7 where
  domain := mirrored_mirrors.domain
  poseidon := mirrored_mirrors.poseidon

end Onchain

open Onchain Fills in
/-- A session proved under another policy settles a fill below the least size, and one proved under the
contract's own policy settles a fill below the least price. -/
theorem settleAuction_below_policy :
    IvcSound plainEnv floorDeployment floorRounds ∧
    (∃ c2 c4, (floorChain 5 1).exec floorDeployment 4 0 (.submitSession (floorSession 21 1)) = .ok c2 ∧
      c2.exec floorDeployment 4 0 (.settleAuction 21 31 [floorMatch]) = .ok c4 ∧
      floorMatch.size / weiToCircuitScale < (floorChain 5 1).pool.minSize) ∧
    (∃ c2 c4, (floorChain 1 5).exec floorDeployment 4 0 (.submitSession (floorSession 21 5)) = .ok c2 ∧
      c2.exec floorDeployment 4 0 (.settleAuction 21 31 [floorMatch]) = .ok c4 ∧
      floorMatch.price / weiToCircuitScale < (floorChain 1 5).pool.minPrice) := by
  have hsize : (settleFloor (floorChain 5 1) 1).toOption.isSome = true := by decide +kernel
  have hprice : (settleFloor (floorChain 1 5) 5).toOption.isSome = true := by decide +kernel
  obtain ⟨c4, h4⟩ := exists_ok_of_isSome hsize
  obtain ⟨c4', h4'⟩ := exists_ok_of_isSome hprice
  obtain ⟨c2, h2, h4⟩ := bind_eq_ok.mp h4
  obtain ⟨c2', h2', h4'⟩ := bind_eq_ok.mp h4'
  exact ⟨floorDeployment_sound, ⟨c2, c4, h2, h4, by decide⟩, ⟨c2', c4', h2', h4', by decide⟩⟩

open Onchain Fills in
theorem settleAuction_meets_policy_single :
    ∃ c2 c4, (floorChain 1 1).exec floorDeployment 4 0 (.submitSession (floorSession 21 1)) = .ok c2 ∧
      c2.exec floorDeployment 4 0 (.settleAuction 21 31 [floorMatch]) = .ok c4 ∧
      (floorChain 1 1).pool.minSize ≤ floorMatch.size / weiToCircuitScale := by
  have hsettles : (settleFloor (floorChain 1 1) 1).toOption.isSome = true := by decide +kernel
  obtain ⟨c4, h4⟩ := exists_ok_of_isSome hsettles
  obtain ⟨c2, h2, h4⟩ := bind_eq_ok.mp h4
  have hrounds : floorRounds (floorSession 21 1) = [single 1] := if_pos rfl
  have hrows : sessionRows [single 1] = [Fills.row plainEnv 0 1] := by
    simp [sessionRows, AuctionExternalInputs.activeRows, single, batch, Fills.row, CircuitMatchNative.default]
  have hpolicy : (floorChain 1 1).pool.policy = (single 1).policy := by decide
  refine ⟨c2, c4, h2, h4, (settleAuction_meets_policy plainEnv floorDeployment 7 floorDeployment_mirrors floorRounds
    floorDeployment_sound (floorChain 1 1) c2 c4 4 4 0 0 (floorSession 21 1) [] 31 [floorMatch] ?_ ?_ ?_ h2 h4 ?_
    floorMatch List.mem_cons_self).1⟩
  · simp [SolMatch.Uint, floorMatch]
  · rw [hrounds, hrows]
    exact ⟨by decide, by decide⟩
  · rw [hrounds, hpolicy]
    rintro ext hext -
    rw [List.mem_singleton.mp hext]
  · rw [hrounds]
    refine ⟨by decide, by rw [hpolicy]; decide +kernel, ?_⟩
    rintro ext hext -
    rw [List.mem_singleton.mp hext]
    decide

end DarkPool
