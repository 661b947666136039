import DarkPool.StepCircuit

namespace DarkPool

open FieldBits

/-- The leg is an admitted order of the side (0 buys, 1 sells), placed by the account at its settlement
address. -/
structure CommittedAs (env : Env) (ext : AuctionExternalInputs) (leg : CircuitLeg) (path : MerkleProof) (side : Fr) :
    Prop where
  trader : leg.trader = env.poseidon [leg.traderAddr]
  member : merkleRootVar env (commitNative env ⟨leg.trader, side, leg.limitPrice, leg.orderSize, leg.salt⟩) path =
    ext.admittedRoot
  side : leg.side = side

variable {env : Env} {ext : AuctionExternalInputs} {r : CircuitMatchNative}

/-- The sides of an active row are opposite bits. -/
theorem RowConstraints.sides (h : RowConstraints env ext r) (hactive : r.isActive = 1) :
    (r.bid.side = 0 ∧ r.ask.side = 1) ∨ (r.bid.side = 1 ∧ r.ask.side = 0) := by
  have hopposite := h.oppositeSides
  rw [hactive, mul_one] at hopposite
  rcases bit_iff.mp h.bidSideBit with hb | hb
  · exact .inl ⟨hb, by linear_combination hopposite - hb⟩
  · exact .inr ⟨hb, by linear_combination hopposite - hb⟩

theorem RowConstraints.committedAs (h : RowConstraints env ext r) (hactive : r.isActive = 1) :
    CommittedAs env ext r.bid r.bidPath r.bid.side ∧ CommittedAs env ext r.ask r.askPath r.ask.side :=
  ⟨⟨(eq_of_gated hactive h.bidDerived).symm, eq_of_gated hactive h.bidMember, rfl⟩,
    ⟨(eq_of_gated hactive h.askDerived).symm, eq_of_gated hactive h.askMember, rfl⟩⟩

/-- The account that an active row settles as the buyer placed a buy order, and the other a sell order,
exactly if the prover gives the bid the side 0. -/
theorem roles_bound_iff (env : Env) (z : Vector Fr 5) (ext : AuctionExternalInputs) (h : StepConstraints env ext z)
    (r : CircuitMatchNative) (hr : r ∈ ext.rows) (hactive : r.isActive ≠ 0) :
    (r.settlementRow.bidAddr = r.bid.traderAddr ∧ CommittedAs env ext r.bid r.bidPath 0 ∧
      r.settlementRow.askAddr = r.ask.traderAddr ∧ CommittedAs env ext r.ask r.askPath 1) ↔ r.bid.side = 0 := by
  have hrow := h.rows r hr
  have hone := hrow.active_iff.mp hactive
  obtain ⟨hbid, hask⟩ := hrow.committedAs hone
  constructor
  · exact fun hroles => hroles.2.1.side
  · intro hside
    rcases hrow.sides hone with ⟨hb, ha⟩ | ⟨hb, -⟩
    · exact ⟨rfl, hb ▸ hbid, rfl, ha ▸ hask⟩
    · exact absurd (hb.symm.trans hside) one_ne_zero

open Fills in
/-- No hash helps: the circuit accepts a committed sell order as the bid. -/
theorem sell_order_settles_as_bid :
    ¬ ∃ env : Env, ∀ z ext r, StepConstraints env ext z → r ∈ ext.rows → r.isActive ≠ 0 →
      CommittedAs env ext r.bid r.bidPath 0 ∧ CommittedAs env ext r.ask r.askPath 1 := by
  rintro ⟨env, hall⟩
  have hcommitted := hall _ (batch env 1 1 1) (row env 1 1)
    (batch_constraints (z := computeZ0 env (batch env 1 1 1) 7) (.inr rfl) (.inl rfl) (by decide) rfl) (by simp [batch])
    (by simp [row])
  exact one_ne_zero hcommitted.1.side

open Fills in
theorem roles_bound_single :
    (row plainEnv 0 1).isActive ≠ 0 ∧
      CommittedAs plainEnv (single 1) (row plainEnv 0 1).bid (row plainEnv 0 1).bidPath 0 := by
  have hactive : (row plainEnv 0 1).isActive ≠ 0 := by simp [row]
  exact ⟨hactive, ((roles_bound_iff plainEnv _ _ (single_constraints (.inl rfl) 7) (row plainEnv 0 1)
    (by simp [single, batch]) hactive).mpr rfl).2.1⟩

end DarkPool
