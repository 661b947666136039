import DarkPool.Lib.FieldBits
import DarkPool.ScalarField
import DarkPool.Aggregator

namespace DarkPool

open FieldBits

def sizeBits : Nat := 60

def solvencyDiffBits : Nat := 120

/-- `to_bits_le` allocates the 254 bits of a field element. -/
def enforceRangeN (value : Fr) (n : Nat) : Prop := InRange 254 n value

def enforceRange60 (value : Fr) : Prop := enforceRangeN value sizeBits

theorem bit_iff {b : Fr} : b * (1 - b) = 0 ↔ b = 0 ∨ b = 1 := by
  have := fact_prime_scalarModulus
  exact boolean_iff

theorem enforceRangeN_iff {value : Fr} {n : Nat} : enforceRangeN value n ↔ value.val < 2 ^ n := by
  have := fact_prime_scalarModulus
  exact inRange_iff (by decide)

theorem enforceRange60_iff {value : Fr} : enforceRange60 value ↔ value.val < 2 ^ 60 := enforceRangeN_iff

section Constraints

variable (env : Env)

/-- The root that a leaf and its path recompute. The position bits are allocated as booleans. -/
def merkleRootVar (leaf : Fr) (path : MerkleProof) : Fr :=
  (path.siblings.zip path.indexBits).foldl
    (fun cur node =>
      let left := if node.2 then node.1 else cur
      let right := if node.2 then cur else node.1
      env.poseidon [left, right]) leaf

/-- A path is allocated at the depth of the tree. -/
def MerkleProof.Allocated (path : MerkleProof) : Prop :=
  path.siblings.length = merkleDepth ∧ path.indexBits.length = merkleDepth

variable (ext : AuctionExternalInputs) (r : CircuitMatchNative)

/-- The constraints of `generate_step_constraints` on one row, family by family. -/
structure RowConstraints : Prop where
  bidPathAllocated : r.bidPath.Allocated
  askPathAllocated : r.askPath.Allocated
  -- Family 1.
  bidSideBit : r.bid.side * (1 - r.bid.side) = 0
  askSideBit : r.ask.side * (1 - r.ask.side) = 0
  activeBit : r.isActive * (1 - r.isActive) = 0
  -- Family 2.
  oppositeSides : (r.bid.side + r.ask.side - 1) * r.isActive = 0
  -- Family 4.
  sizeRange : enforceRange60 r.matchSize
  bidPriceRange : enforceRange60 r.bid.limitPrice
  askPriceRange : enforceRange60 r.ask.limitPrice
  priceRange : enforceRange60 r.matchPrice
  sizeDiff : enforceRange60 ((r.matchSize - ext.minSize) * r.isActive)
  bidPriceDiff : enforceRange60 ((r.bid.limitPrice - ext.minPrice) * r.isActive)
  -- Families 3 and 3b.
  bidCross : enforceRange60 ((r.bid.limitPrice - r.matchPrice) * r.isActive)
  askCross : enforceRange60 ((r.matchPrice - r.ask.limitPrice) * r.isActive)
  clearing : (r.matchPrice - ext.clearingPrice) * r.isActive = 0
  -- Families 5 and 5b.
  bidOrderRange : enforceRange60 r.bid.orderSize
  askOrderRange : enforceRange60 r.ask.orderSize
  bidOrderGe : enforceRange60 ((r.bid.orderSize - r.matchSize) * r.isActive)
  askOrderGe : enforceRange60 ((r.ask.orderSize - r.matchSize) * r.isActive)
  bidMember : (merkleRootVar env (leafOf env r.bid) r.bidPath - ext.admittedRoot) * r.isActive = 0
  askMember : (merkleRootVar env (leafOf env r.ask) r.askPath - ext.admittedRoot) * r.isActive = 0
  -- Families 6 and 7.
  bidBalanceRange : enforceRange60 r.bid.balance
  askBalanceRange : enforceRange60 r.ask.balance
  bidSolvencyDiff :
    enforceRangeN ((r.bid.balance * 100000000 - r.matchPrice * r.matchSize) * r.isActive) solvencyDiffBits
  askSolvencyDiff : enforceRangeN ((r.ask.balance - r.matchSize) * r.isActive) solvencyDiffBits
  -- Family 8.
  bidPosLo : enforceRange60 ((ext.positionLimit - (r.bid.position + r.matchSize)) * r.isActive)
  bidPosHi : enforceRange60 ((ext.positionLimit + (r.bid.position + r.matchSize)) * r.isActive)
  askPosLo : enforceRange60 ((ext.positionLimit - (r.ask.position - r.matchSize)) * r.isActive)
  askPosHi : enforceRange60 ((ext.positionLimit + (r.ask.position - r.matchSize)) * r.isActive)
  -- Family 9.
  bidDerived : (env.poseidon [r.bid.traderAddr] - r.bid.trader) * r.isActive = 0
  askDerived : (env.poseidon [r.ask.traderAddr] - r.ask.trader) * r.isActive = 0

/-- All constraints of a step on its inputs; its outputs are `stepCircuit`. -/
structure StepConstraints (z : Vector Fr 5) : Prop where
  policy : env.poseidon [ext.minSize, ext.minPrice, ext.positionLimit] = z.get zPolicy
  width : ext.rows.length = ivcBatchSize
  rows : ∀ r ∈ ext.rows, RowConstraints env ext r

/-- What an active row is over the integers. -/
structure ValidFill : Prop where
  matchPrice_lt : r.matchPrice.val < 2 ^ 60
  matchSize_lt : r.matchSize.val < 2 ^ 60
  limitPrice_lt : r.bid.limitPrice.val < 2 ^ 60 ∧ r.ask.limitPrice.val < 2 ^ 60
  orderSize_lt : r.bid.orderSize.val < 2 ^ 60 ∧ r.ask.orderSize.val < 2 ^ 60
  balance_lt : r.bid.balance.val < 2 ^ 60 ∧ r.ask.balance.val < 2 ^ 60
  crosses : r.ask.limitPrice.val ≤ r.matchPrice.val ∧ r.matchPrice.val ≤ r.bid.limitPrice.val
  clears : r.matchPrice = ext.clearingPrice
  atLeastMin : ext.minSize.val ≤ r.matchSize.val
  withinOrders : r.matchSize.val ≤ r.bid.orderSize.val ∧ r.matchSize.val ≤ r.ask.orderSize.val
  bidPays : r.matchPrice.val * r.matchSize.val ≤ r.bid.balance.val * 10 ^ 8
  askDelivers : r.matchSize.val ≤ r.ask.balance.val
  bidPosition : ∃ x : ℤ, |x| ≤ ext.positionLimit.val ∧ (x : Fr) = r.bid.position + r.matchSize
  askPosition : ∃ x : ℤ, |x| ≤ ext.positionLimit.val ∧ (x : Fr) = r.ask.position - r.matchSize
  traders : r.bid.trader = env.poseidon [r.bid.traderAddr] ∧ r.ask.trader = env.poseidon [r.ask.traderAddr]
  admitted : merkleRootVar env (leafOf env r.bid) r.bidPath = ext.admittedRoot ∧
    merkleRootVar env (leafOf env r.ask) r.askPath = ext.admittedRoot

end Constraints

section Sound

variable {env : Env} {ext : AuctionExternalInputs} {r : CircuitMatchNative}

theorem RowConstraints.active_iff (h : RowConstraints env ext r) : r.isActive ≠ 0 ↔ r.isActive = 1 := by
  rcases bit_iff.mp h.activeBit with h0 | h1
  · simp [h0]
  · simp [h1]

/-- On an active row a gated equation is the equation. -/
theorem eq_of_gated {x y : Fr} (hactive : r.isActive = 1) (h : (x - y) * r.isActive = 0) : x = y := by
  rw [hactive, mul_one] at h
  exact sub_eq_zero.mp h

/-- On an active row a gated range check of a difference orders the integers. -/
theorem le_of_gated {x y : Fr} {n m : Nat} (hroom : 2 ^ n + 2 ^ m ≤ scalarModulus) (hy : y.val < 2 ^ m)
    (hactive : r.isActive = 1) (h : enforceRangeN ((x - y) * r.isActive) n) : y.val ≤ x.val := by
  rw [hactive, mul_one, enforceRangeN_iff] at h
  exact val_le_of_sub h hy hroom

theorem le_of_gated60 {x y : Fr} (hy : y.val < 2 ^ 60) (hactive : r.isActive = 1)
    (h : enforceRange60 ((x - y) * r.isActive)) : y.val ≤ x.val :=
  le_of_gated (m := 60) (by decide) hy hactive h

theorem position_of_gated {pos limit : Fr} (hlimit : limit.val < 2 ^ 60) (hactive : r.isActive = 1)
    (hlo : enforceRange60 ((limit - pos) * r.isActive)) (hhi : enforceRange60 ((limit + pos) * r.isActive)) :
    ∃ x : ℤ, |x| ≤ limit.val ∧ (x : Fr) = pos := by
  rw [hactive, mul_one, enforceRange60_iff] at hlo hhi
  exact exists_int_of_two_sided hlo hhi hlimit (by decide)

/-- The products of the solvency check stay below the modulus. -/
theorem solvent_of_gated {balance price size : Fr} (hbalance : balance.val < 2 ^ 60) (hprice : price.val < 2 ^ 60)
    (hsize : size.val < 2 ^ 60) (hactive : r.isActive = 1)
    (h : enforceRangeN ((balance * 100000000 - price * size) * r.isActive) solvencyDiffBits) :
    price.val * size.val ≤ balance.val * 10 ^ 8 := by
  have hnotional : price.val * size.val < 2 ^ 60 * 2 ^ 60 := Nat.mul_lt_mul'' hprice hsize
  have hval : (price * size).val = price.val * size.val := ZMod.val_mul_of_lt (hnotional.trans (by decide))
  have hscale : (100000000 : Fr).val = 10 ^ 8 := by decide
  have hscaled : (balance * 100000000).val = balance.val * 10 ^ 8 := by
    have hlt : balance.val * 10 ^ 8 < scalarModulus := (Nat.mul_lt_mul_of_pos_right hbalance (by norm_num)).trans (by decide)
    rw [ZMod.val_mul_of_lt (by rw [hscale]; exact hlt), hscale]
  rw [← hval, ← hscaled]
  exact le_of_gated (m := 120) (by decide) (hval ▸ hnotional.trans_eq (by norm_num)) hactive h

/-- The circuit is sound: whatever the prover assigns, an active row of a round that satisfies it is a
valid fill of two admitted orders. -/
theorem stepConstraints_sound (z : Vector Fr 5) (h : StepConstraints env ext z)
    (hpolicy : ext.minSize.val < 2 ^ 60 ∧ ext.minPrice.val < 2 ^ 60 ∧ ext.positionLimit.val < 2 ^ 60)
    (hr : r ∈ ext.rows) (hactive : r.isActive ≠ 0) : ValidFill env ext r := by
  have hrow := h.rows r hr
  replace hactive := hrow.active_iff.mp hactive
  have hprice := enforceRange60_iff.mp hrow.priceRange
  have hsize := enforceRange60_iff.mp hrow.sizeRange
  have hask := enforceRange60_iff.mp hrow.askPriceRange
  have hbalance := enforceRange60_iff.mp hrow.bidBalanceRange
  exact {
    matchPrice_lt := hprice
    matchSize_lt := hsize
    limitPrice_lt := ⟨enforceRange60_iff.mp hrow.bidPriceRange, hask⟩
    orderSize_lt := ⟨enforceRange60_iff.mp hrow.bidOrderRange, enforceRange60_iff.mp hrow.askOrderRange⟩
    balance_lt := ⟨hbalance, enforceRange60_iff.mp hrow.askBalanceRange⟩
    crosses := ⟨le_of_gated60 hask hactive hrow.askCross, le_of_gated60 hprice hactive hrow.bidCross⟩
    clears := eq_of_gated hactive hrow.clearing
    atLeastMin := le_of_gated60 hpolicy.1 hactive hrow.sizeDiff
    withinOrders := ⟨le_of_gated60 hsize hactive hrow.bidOrderGe, le_of_gated60 hsize hactive hrow.askOrderGe⟩
    bidPays := solvent_of_gated hbalance hprice hsize hactive hrow.bidSolvencyDiff
    askDelivers := le_of_gated (m := 60) (by decide) hsize hactive hrow.askSolvencyDiff
    bidPosition := position_of_gated hpolicy.2.2 hactive hrow.bidPosLo hrow.bidPosHi
    askPosition := position_of_gated hpolicy.2.2 hactive hrow.askPosLo hrow.askPosHi
    traders := ⟨(eq_of_gated hactive hrow.bidDerived).symm, (eq_of_gated hactive hrow.askDerived).symm⟩
    admitted := ⟨eq_of_gated hactive hrow.bidMember, eq_of_gated hactive hrow.askMember⟩ }

end Sound

/-- Padding satisfies every constraint, whatever the round. -/
theorem CircuitMatchNative.default_constraints {env : Env} (ext : AuctionExternalInputs) :
    RowConstraints env ext CircuitMatchNative.default := by
  constructor
  case bidPathAllocated | askPathAllocated => exact ⟨rfl, rfl⟩
  case bidSideBit | askSideBit | activeBit | oppositeSides | clearing | bidMember | askMember | bidDerived | askDerived =>
    simp [CircuitMatchNative.default]
  all_goals
    simp [enforceRange60_iff, enforceRangeN_iff, CircuitMatchNative.default]

namespace Fills

variable (env : Env)

/-- An order for one unit, by the account at `addr`. -/
def leg (side addr limitPrice : Fr) : CircuitLeg where
  trader := env.poseidon [addr]
  salt := 0
  limitPrice := limitPrice
  side := side
  balance := 1
  position := 0
  traderAddr := addr
  orderSize := 1

/-- The orders of the accounts 1 and 2 fill each other at one, where the bid would go up to `floor`; they
are neighbours in the admitted tree. -/
def row (bidSide floor : Fr) : CircuitMatchNative where
  bid := leg env bidSide 1 floor
  ask := leg env (1 - bidSide) (2 : Nat) 1
  matchPrice := 1
  matchSize := 1
  isActive := 1
  bidPath := ⟨leafOf env (leg env (1 - bidSide) (2 : Nat) 1) :: List.replicate 7 0, List.replicate 8 false⟩
  askPath := ⟨leafOf env (leg env bidSide 1 floor) :: List.replicate 7 0, true :: List.replicate 7 false⟩

/-- A round of `n` such fills, padded to the width of the circuit, with `floor` as the least price. -/
def batch (bidSide floor : Fr) (n : Nat) : AuctionExternalInputs where
  minSize := 1
  minPrice := floor
  positionLimit := (10 : Nat)
  clearingPrice := 1
  admittedRoot := merkleRootVar env (leafOf env (leg env bidSide 1 floor)) (row env bidSide floor).bidPath
  rows := List.replicate n (row env bidSide floor) ++ List.replicate (ivcBatchSize - n) CircuitMatchNative.default

variable {env} {bidSide floor : Fr}

theorem row_constraints (hside : bidSide = 0 ∨ bidSide = 1) (hfloor : floor = 1 ∨ floor = 5) (n : Nat) :
    RowConstraints env (batch env bidSide floor n) (row env bidSide floor) := by
  have hbit : bidSide * (1 - bidSide) = 0 := bit_iff.mpr hside
  constructor
  case bidPathAllocated | askPathAllocated => exact ⟨rfl, rfl⟩
  case bidSideBit => exact hbit
  case askSideBit => simpa [row, leg, mul_comm] using hbit
  case activeBit | oppositeSides | clearing | bidDerived | askDerived => simp [row, batch, leg]
  case bidMember => simp [batch, row]
  case askMember =>
    refine mul_eq_zero_of_left (sub_eq_zero.mpr ?_) _
    rfl
  all_goals
    simp only [enforceRange60_iff, enforceRangeN_iff, row, batch, leg, solvencyDiffBits]
    rcases hfloor with rfl | rfl <;> decide

/-- Whatever Poseidon is, the round satisfies the circuit under its policy. -/
theorem batch_constraints (hside : bidSide = 0 ∨ bidSide = 1) (hfloor : floor = 1 ∨ floor = 5) {n : Nat}
    (hn : n ≤ ivcBatchSize) {z : Vector Fr 5} (hz : env.poseidon [1, floor, 10] = z.get zPolicy) :
    StepConstraints env (batch env bidSide floor n) z where
  policy := hz
  width := by simp [batch, hn]
  rows := by
    intro r hr
    rcases List.mem_append.mp hr with hr | hr
    · rw [List.eq_of_mem_replicate hr]
      exact row_constraints hside hfloor n
    · rw [List.eq_of_mem_replicate hr]
      exact CircuitMatchNative.default_constraints _

/-- A hash that tells the inputs of these rounds apart. -/
def plainEnv : Env := ⟨fun _ => none, none, fun xs => xs.foldl (fun acc x => acc * 31 + x + 1) 1, fun _ => 0⟩

/-- One fill under the plain hash. -/
def single (floor : Fr) : AuctionExternalInputs := batch plainEnv 0 floor 1

theorem single_constraints (hfloor : floor = 1 ∨ floor = 5) (domain : Fr) :
    StepConstraints plainEnv (single floor) (computeZ0 plainEnv (single floor) domain) :=
  batch_constraints (.inl rfl) hfloor (by decide) rfl

end Fills

open Fills in
theorem stepConstraints_sound_single :
    StepConstraints plainEnv (single 1) (computeZ0 plainEnv (single 1) 7) ∧
      ValidFill plainEnv (single 1) (row plainEnv 0 1) := by
  have h := single_constraints (.inl rfl) 7
  exact ⟨h, stepConstraints_sound _ h (by decide) (by simp [single, batch]) (by simp [row])⟩

end DarkPool
