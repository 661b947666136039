import DarkPool.StepCircuit

namespace DarkPool

theorem emod_lt_pow_iff {m t : ℤ} {n : Nat} (hm : 2 ^ 201 ≤ m) (ht : |t| < 2 ^ 200) (hn : n ≤ 200) :
    t % m < 2 ^ n ↔ 0 ≤ t ∧ t < 2 ^ n := by
  have hpow : (2 : ℤ) ^ n ≤ 2 ^ 200 := pow_le_pow_right₀ (by norm_num) hn
  obtain ⟨hlo, hhi⟩ := abs_lt.mp ht
  rcases lt_or_ge t 0 with hneg | hpos
  · have hmod : t % m = t + m := by
      rw [← Int.add_emod_right, Int.emod_eq_of_lt (by omega) (by omega)]
    constructor <;> omega
  · rw [Int.emod_eq_of_lt hpos (by omega)]
    constructor <;> omega

/-- A range check of a small integer, of either sign. -/
theorem enforceRangeN_of_eq {x : Fr} {t : ℤ} {n : Nat} (hx : x = (t : Fr)) (ht : |t| < 2 ^ 200) (hn : n ≤ 200) :
    enforceRangeN x n ↔ 0 ≤ t ∧ t < 2 ^ n := by
  have hval : ((x.val : Nat) : ℤ) = t % scalarModulus := by rw [hx, ZMod.val_intCast]
  have hm : (2 : ℤ) ^ 201 ≤ scalarModulus := by decide
  rw [enforceRangeN_iff, ← emod_lt_pow_iff hm ht hn, ← hval]
  exact_mod_cast Iff.rfl

/-- What the encoders make of a decimal, or of a signed integer. -/
def EncodesNat (x : Fr) (n : Nat) : Prop := x = (n : Fr) ∧ n < 2 ^ 60

def EncodesInt (x : Fr) (k : ℤ) : Prop := x = (k : Fr) ∧ |k| < 2 ^ 60

theorem signedToScalar_eq_ok {k : ℤ} {x : Fr} (h : signedToScalar k = .ok x) : EncodesInt x k := by
  unfold signedToScalar at h
  split at h
  next => simp at h
  next hlt =>
    refine ⟨?_, not_le.mp hlt⟩
    split at h
    next hpos =>
      rw [← Except.ok.inj h, ← Int.cast_natCast, Int.toNat_of_nonneg hpos]
    next hneg =>
      rw [← Except.ok.inj h, ← Int.cast_natCast, Int.toNat_of_nonneg (by omega), Int.cast_neg, neg_neg]

/-- The integers that a row stands for, under the policy of its round. -/
structure RowInts (ext : AuctionExternalInputs) (r : CircuitMatchNative) where
  minSize : Nat
  minPrice : Nat
  limit : ℤ
  price : Nat
  size : Nat
  bidPrice : Nat
  askPrice : Nat
  bidOrder : Nat
  askOrder : Nat
  bidBalance : Nat
  askBalance : Nat
  bidPosition : ℤ
  askPosition : ℤ
  minSize_eq : EncodesNat ext.minSize minSize
  minPrice_eq : EncodesNat ext.minPrice minPrice
  limit_eq : EncodesInt ext.positionLimit limit
  price_eq : EncodesNat r.matchPrice price
  size_eq : EncodesNat r.matchSize size
  bidPrice_eq : EncodesNat r.bid.limitPrice bidPrice
  askPrice_eq : EncodesNat r.ask.limitPrice askPrice
  bidOrder_eq : EncodesNat r.bid.orderSize bidOrder
  askOrder_eq : EncodesNat r.ask.orderSize askOrder
  bidBalance_eq : EncodesNat r.bid.balance bidBalance
  askBalance_eq : EncodesNat r.ask.balance askBalance
  bidPosition_eq : EncodesInt r.bid.position bidPosition
  askPosition_eq : EncodesInt r.ask.position askPosition

namespace RowInts

variable {env : Env} {ext : AuctionExternalInputs} {r : CircuitMatchNative} (v : RowInts ext r)

/-- Crossing, size bounds, solvency and position limits over the integers. -/
structure Valid : Prop where
  crosses : v.askPrice ≤ v.price ∧ v.price ≤ v.bidPrice
  atLeastMin : v.minSize ≤ v.size
  withinOrders : v.size ≤ v.bidOrder ∧ v.size ≤ v.askOrder
  solvent : v.price * v.size ≤ v.bidBalance * 10 ^ 8 ∧ v.size ≤ v.askBalance
  bidLimited : |v.bidPosition + v.size| ≤ v.limit
  askLimited : |v.askPosition - v.size| ≤ v.limit

/-- What the windows of the range checks leave of the policy. -/
structure Fits : Prop where
  floor : v.minPrice ≤ v.bidPrice
  bid : v.limit + |v.bidPosition + v.size| < 2 ^ 60
  ask : v.limit + |v.askPosition - v.size| < 2 ^ 60

end RowInts

def SideBits (r : CircuitMatchNative) : Prop :=
  (r.bid.side = 0 ∨ r.bid.side = 1) ∧ (r.ask.side = 0 ∨ r.ask.side = 1) ∧ r.bid.side + r.ask.side = 1

/-- Each leg's trader id is that of its address. -/
def Identified (env : Env) (r : CircuitMatchNative) : Prop :=
  r.bid.trader = env.poseidon [r.bid.traderAddr] ∧ r.ask.trader = env.poseidon [r.ask.traderAddr]

section Rows

variable {env : Env} {ext : AuctionExternalInputs} {r : CircuitMatchNative}

theorem enforceRange60_of_encodes {x : Fr} {n : Nat} (h : EncodesNat x n) : enforceRange60 x := by
  refine (enforceRangeN_of_eq (t := n) (by rw [h.1]; push_cast; rfl) ?_ (by decide)).mpr ⟨by omega, by exact_mod_cast h.2⟩
  have hlt := h.2
  rw [abs_lt]
  constructor <;> omega

/-- A gated difference of encoded integers is in range when they are ordered. -/
theorem enforceRange60_sub {x y : Fr} {a b : Nat} (hx : EncodesNat x a) (hy : EncodesNat y b) (hactive : r.isActive = 1) :
    enforceRange60 ((x - y) * r.isActive) ↔ b ≤ a := by
  have ha := hx.2
  have hb := hy.2
  have hcast : (x - y) * r.isActive = (((a : ℤ) - b : ℤ) : Fr) := by
    rw [hactive, mul_one, hx.1, hy.1]
    push_cast
    rfl
  refine (enforceRangeN_of_eq hcast (by rw [abs_lt]; constructor <;> omega) (by decide)).trans ?_
  constructor
  · rintro ⟨h, -⟩
    omega
  · intro h
    exact ⟨by omega, by rw [sizeBits]; omega⟩

theorem bidSolvencyDiff_iff {balance price size : Fr} {b p q : Nat} (hb : EncodesNat balance b) (hp : EncodesNat price p)
    (hq : EncodesNat size q) (hactive : r.isActive = 1) :
    enforceRangeN ((balance * 100000000 - price * size) * r.isActive) solvencyDiffBits ↔ p * q ≤ b * 10 ^ 8 := by
  have hlt := hb.2
  have hnotional : p * q < 2 ^ 60 * 2 ^ 60 := Nat.mul_lt_mul'' hp.2 hq.2
  have hcast : (balance * 100000000 - price * size) * r.isActive = (((b * 10 ^ 8 : Nat) : ℤ) - ((p * q : Nat) : ℤ) : ℤ) := by
    rw [hactive, mul_one, hb.1, hp.1, hq.1]
    push_cast
    norm_num
  generalize p * q = n at hnotional hcast ⊢
  refine (enforceRangeN_of_eq hcast (by rw [abs_lt]; constructor <;> omega) (by decide)).trans ?_
  constructor
  · rintro ⟨h, -⟩
    omega
  · intro h
    exact ⟨by omega, by rw [solvencyDiffBits]; omega⟩

theorem askSolvencyDiff_iff {balance size : Fr} {b q : Nat} (hb : EncodesNat balance b) (hq : EncodesNat size q)
    (hactive : r.isActive = 1) :
    enforceRangeN ((balance - size) * r.isActive) solvencyDiffBits ↔ q ≤ b := by
  have hlt := hb.2
  have hlt' := hq.2
  have hcast : (balance - size) * r.isActive = (((b : ℤ) - q : ℤ) : Fr) := by
    rw [hactive, mul_one, hb.1, hq.1]
    push_cast
    rfl
  refine (enforceRangeN_of_eq hcast (by rw [abs_lt]; constructor <;> omega) (by decide)).trans ?_
  constructor
  · rintro ⟨h, -⟩
    omega
  · intro h
    exact ⟨by omega, by rw [solvencyDiffBits]; omega⟩

/-- Both position checks pass when the position is within the limit and their sum within the window. -/
theorem position_checks_iff {limit pos : Fr} {l k : ℤ} (hl : EncodesInt limit l) (hpos : pos = (k : Fr)) (hk : |k| < 2 ^ 61)
    (hactive : r.isActive = 1) :
    (enforceRange60 ((limit - pos) * r.isActive) ∧ enforceRange60 ((limit + pos) * r.isActive)) ↔
      |k| ≤ l ∧ l + |k| < 2 ^ 60 := by
  obtain ⟨hllo, hlhi⟩ := abs_lt.mp hl.2
  obtain ⟨hklo, hkhi⟩ := abs_lt.mp hk
  have hsub : (limit - pos) * r.isActive = ((l - k : ℤ) : Fr) := by
    rw [hactive, mul_one, hl.1, hpos]
    push_cast
    rfl
  have hadd : (limit + pos) * r.isActive = ((l + k : ℤ) : Fr) := by
    rw [hactive, mul_one, hl.1, hpos]
    push_cast
    rfl
  have hlo := enforceRangeN_of_eq hsub (n := sizeBits) (by rw [abs_lt]; constructor <;> omega) (by decide)
  have hhi := enforceRangeN_of_eq hadd (n := sizeBits) (by rw [abs_lt]; constructor <;> omega) (by decide)
  rw [sizeBits] at hlo hhi
  refine (and_congr hlo hhi).trans ?_
  rw [abs_le]
  rcases abs_cases k with ⟨habs, hsign⟩ | ⟨habs, hsign⟩ <;> rw [habs] <;> constructor <;> intro h <;> omega

/-- The constraints on an active row whose paths check out, read over the integers. -/
theorem RowInts.constraints_iff (v : RowInts ext r) (hactive : r.isActive = 1)
    (hpaths : r.bidPath.Allocated ∧ r.askPath.Allocated) (hclears : r.matchPrice = ext.clearingPrice)
    (hmember : merkleRootVar env (leafOf env r.bid) r.bidPath = ext.admittedRoot ∧
      merkleRootVar env (leafOf env r.ask) r.askPath = ext.admittedRoot) :
    RowConstraints env ext r ↔ SideBits r ∧ Identified env r ∧ v.Valid ∧ v.Fits := by
  have hbid : |v.bidPosition + v.size| < 2 ^ 61 := by
    have hpos := abs_lt.mp v.bidPosition_eq.2
    have hsize := v.size_eq.2
    rw [abs_lt]
    constructor <;> omega
  have hask : |v.askPosition - v.size| < 2 ^ 61 := by
    have hpos := abs_lt.mp v.askPosition_eq.2
    have hsize := v.size_eq.2
    rw [abs_lt]
    constructor <;> omega
  have hbidNew : r.bid.position + r.matchSize = ((v.bidPosition + v.size : ℤ) : Fr) := by
    rw [v.bidPosition_eq.1, v.size_eq.1]
    push_cast
    rfl
  have haskNew : r.ask.position - r.matchSize = ((v.askPosition - v.size : ℤ) : Fr) := by
    rw [v.askPosition_eq.1, v.size_eq.1]
    push_cast
    rfl
  have hbidPos := position_checks_iff v.limit_eq hbidNew hbid hactive
  have haskPos := position_checks_iff v.limit_eq haskNew hask hactive
  constructor
  · intro h
    have hb := hbidPos.mp ⟨h.bidPosLo, h.bidPosHi⟩
    have ha := haskPos.mp ⟨h.askPosLo, h.askPosHi⟩
    have hopposite := h.oppositeSides
    rw [hactive, mul_one, sub_eq_zero] at hopposite
    refine ⟨⟨bit_iff.mp h.bidSideBit, bit_iff.mp h.askSideBit, hopposite⟩,
      ⟨(eq_of_gated hactive h.bidDerived).symm, (eq_of_gated hactive h.askDerived).symm⟩, ?_, ?_⟩
    · exact {
        crosses := ⟨(enforceRange60_sub v.price_eq v.askPrice_eq hactive).mp h.askCross,
          (enforceRange60_sub v.bidPrice_eq v.price_eq hactive).mp h.bidCross⟩
        atLeastMin := (enforceRange60_sub v.size_eq v.minSize_eq hactive).mp h.sizeDiff
        withinOrders := ⟨(enforceRange60_sub v.bidOrder_eq v.size_eq hactive).mp h.bidOrderGe,
          (enforceRange60_sub v.askOrder_eq v.size_eq hactive).mp h.askOrderGe⟩
        solvent := ⟨(bidSolvencyDiff_iff v.bidBalance_eq v.price_eq v.size_eq hactive).mp h.bidSolvencyDiff,
          (askSolvencyDiff_iff v.askBalance_eq v.size_eq hactive).mp h.askSolvencyDiff⟩
        bidLimited := hb.1
        askLimited := ha.1 }
    · exact ⟨(enforceRange60_sub v.bidPrice_eq v.minPrice_eq hactive).mp h.bidPriceDiff, hb.2, ha.2⟩
  · rintro ⟨⟨hbside, haside, hopposite⟩, ⟨hbidId, haskId⟩, hvalid, hfits⟩
    have hb := hbidPos.mpr ⟨hvalid.bidLimited, hfits.bid⟩
    have ha := haskPos.mpr ⟨hvalid.askLimited, hfits.ask⟩
    have hgate : ∀ {x y : Fr}, x = y → (x - y) * r.isActive = 0 := fun h => by rw [h, sub_self, zero_mul]
    exact {
      bidPathAllocated := hpaths.1
      askPathAllocated := hpaths.2
      bidSideBit := bit_iff.mpr hbside
      askSideBit := bit_iff.mpr haside
      activeBit := bit_iff.mpr (Or.inr hactive)
      oppositeSides := hgate hopposite
      sizeRange := enforceRange60_of_encodes v.size_eq
      bidPriceRange := enforceRange60_of_encodes v.bidPrice_eq
      askPriceRange := enforceRange60_of_encodes v.askPrice_eq
      priceRange := enforceRange60_of_encodes v.price_eq
      sizeDiff := (enforceRange60_sub v.size_eq v.minSize_eq hactive).mpr hvalid.atLeastMin
      bidPriceDiff := (enforceRange60_sub v.bidPrice_eq v.minPrice_eq hactive).mpr hfits.floor
      bidCross := (enforceRange60_sub v.bidPrice_eq v.price_eq hactive).mpr hvalid.crosses.2
      askCross := (enforceRange60_sub v.price_eq v.askPrice_eq hactive).mpr hvalid.crosses.1
      clearing := hgate hclears
      bidOrderRange := enforceRange60_of_encodes v.bidOrder_eq
      askOrderRange := enforceRange60_of_encodes v.askOrder_eq
      bidOrderGe := (enforceRange60_sub v.bidOrder_eq v.size_eq hactive).mpr hvalid.withinOrders.1
      askOrderGe := (enforceRange60_sub v.askOrder_eq v.size_eq hactive).mpr hvalid.withinOrders.2
      bidMember := hgate hmember.1
      askMember := hgate hmember.2
      bidBalanceRange := enforceRange60_of_encodes v.bidBalance_eq
      askBalanceRange := enforceRange60_of_encodes v.askBalance_eq
      bidSolvencyDiff := (bidSolvencyDiff_iff v.bidBalance_eq v.price_eq v.size_eq hactive).mpr hvalid.solvent.1
      askSolvencyDiff := (askSolvencyDiff_iff v.askBalance_eq v.size_eq hactive).mpr hvalid.solvent.2
      bidPosLo := hb.1
      bidPosHi := hb.2
      askPosLo := ha.1
      askPosHi := ha.2
      bidDerived := hgate hbidId.symm
      askDerived := hgate haskId.symm }

end Rows

end DarkPool
