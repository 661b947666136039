import DarkPool.Lib.Dec96
import DarkPool.AuctionPrice
import DarkPool.SettlementRows

namespace DarkPool

namespace Represented

/-- The factors of the conversions, as the decimals they are multiplied as. -/
def scaleFactor : Dec96 := .powTen 8 (by norm_num)

def weiFactor : Dec96 := .powTen 18 (by norm_num)

def decimalToScalar (d : Dec96) : Except EncodingError Fr :=
  if d.neg then .error (.negative d.value)
  else
    match d.checkedMul scaleFactor with
    | none => .error (.overflow d.value)
    | some scaled =>
      if 0 < scaled.scale ∧ ¬ scaled.IsInteger then .error (.precision d.value)
      else if scaled.trunc < maxEncoded then .ok (scaled.trunc : Fr)
      else .error (.overflow d.value)

/-- The plain product panics on overflow: `none`. -/
def decimalToWei (d : Dec96) : Option (Except SettlementError Nat) :=
  if d.neg then some (.error .negativeAmount)
  else
    match d.checkedMul weiFactor with
    | none => none
    | some scaled =>
      if ¬ scaled.IsInteger then some (.error .precisionLoss)
      else if scaled.trunc < 2 ^ 256 then some (.ok scaled.trunc)
      else some (.error .parse)

/-- A settlement row with the representations of its decimals. -/
structure Row where
  row : SettlementMatch
  price : Dec96
  size : Dec96
  price_eq : row.price = price.value
  size_eq : row.size = size.value

def settlementMatchToSol (m : Row) : Option (Except SettlementError SolMatch) :=
  match decimalToWei m.price with
  | none => none
  | some (.error e) => some (.error e)
  | some (.ok price) =>
    match decimalToWei m.size with
    | none => none
    | some (.error e) => some (.error e)
    | some (.ok size) =>
      if price % weiToCircuitScale ≠ 0 ∨ size % weiToCircuitScale ≠ 0 then some (.error .subCircuitPrecision)
      else
        some (.ok ⟨uuidToBytes32 m.row.bidOrderId, uuidToBytes32 m.row.askOrderId, m.row.bidTrader, m.row.askTrader,
          m.row.baseToken, m.row.quoteToken, price, size⟩)

variable {d : Dec96}

/-- The representation is accepted as its value is, unless it carries a sign. -/
theorem decimalToScalar_ok_iff {f : Fr} :
    decimalToScalar d = .ok f ↔ d.neg = false ∧ ∃ n : Nat, n < maxEncoded ∧ d.value * 10 ^ 8 = n ∧ f = n := by
  unfold decimalToScalar
  by_cases hneg : d.neg = true
  · simp [hneg]
  · have hneg : d.neg = false := by simpa using hneg
    simp only [hneg, Bool.false_eq_true, if_false, true_and, Dec96.value_of_not_neg hneg]
    by_cases hlt : d.magnitude * 10 ^ 8 < 2 ^ 96
    · obtain ⟨scaled, hscaled, hmag⟩ := d.checkedMul_powTen_of_lt (e := 8) (by norm_num) hlt
      have hscale : d.checkedMul scaleFactor = some scaled := hscaled
      rw [hscale]
      simp only [← hmag]
      constructor
      · intro h
        split at h
        next => cases h
        next hint =>
          split at h
          next hrange =>
            have hinteger : scaled.IsInteger := by
              by_contra hnot
              refine hint ⟨Nat.pos_of_ne_zero fun hzero => hnot ?_, hnot⟩
              rw [Dec96.IsInteger, hzero, pow_zero, Nat.mod_one]
            exact ⟨scaled.trunc, hrange, scaled.isInteger_iff.mp hinteger, (Except.ok.inj h).symm⟩
          next => cases h
      · rintro ⟨n, hn, hvalue, rfl⟩
        obtain ⟨hinteger, htrunc⟩ := Dec96.isInteger_of_magnitude hvalue
        rw [if_neg (fun h => h.2 hinteger), htrunc, if_pos hn]
    · have hnone : d.checkedMul scaleFactor = none := d.checkedMul_powTen_of_le (e := 8) (by norm_num) (not_lt.mp hlt)
      rw [hnone]
      refine ⟨fun h => (by cases h), fun ⟨n, hn, hvalue, _⟩ => absurd ?_ hlt⟩
      rw [hvalue]
      have : (n : ℚ) < maxEncoded := by exact_mod_cast hn
      refine this.trans ?_
      norm_num [maxEncoded]

theorem decimalToWei_of_neg (h : d.neg = true) : decimalToWei d = some (.error .negativeAmount) := by
  simp [decimalToWei, h]

theorem decimalToWei_eq_none_iff : decimalToWei d = none ↔ d.neg = false ∧ 2 ^ 96 ≤ d.value * 10 ^ 18 := by
  unfold decimalToWei
  by_cases hneg : d.neg = true
  · simp [hneg]
  · have hneg : d.neg = false := by simpa using hneg
    simp only [hneg, Bool.false_eq_true, if_false, true_and, Dec96.value_of_not_neg hneg]
    by_cases hlt : d.magnitude * 10 ^ 18 < 2 ^ 96
    · obtain ⟨scaled, hscaled, -⟩ := d.checkedMul_powTen_of_lt (e := 18) (by norm_num) hlt
      have hscale : d.checkedMul weiFactor = some scaled := hscaled
      rw [hscale]
      refine ⟨fun h => ?_, fun h => absurd hlt (not_lt.mpr h)⟩
      dsimp only at h
      split at h
      next => cases h
      next => split at h <;> cases h
    · have hnone : d.checkedMul weiFactor = none := d.checkedMul_powTen_of_le (e := 18) (by norm_num) (not_lt.mp hlt)
      rw [hnone]
      simpa using hlt

theorem decimalToWei_ok_iff {n : Nat} :
    decimalToWei d = some (.ok n) ↔ d.neg = false ∧ d.value * 10 ^ 18 = n ∧ n < 2 ^ 96 := by
  by_cases hneg : d.neg = true
  · simp [decimalToWei, hneg]
  · have hneg : d.neg = false := by simpa using hneg
    simp only [decimalToWei, hneg, Bool.false_eq_true, if_false, true_and, Dec96.value_of_not_neg hneg]
    by_cases hlt : d.magnitude * 10 ^ 18 < 2 ^ 96
    · obtain ⟨scaled, hscaled, hmag⟩ := d.checkedMul_powTen_of_lt (e := 18) (by norm_num) hlt
      have hscale : d.checkedMul weiFactor = some scaled := hscaled
      have htrunc : scaled.trunc < 2 ^ 96 := (Nat.div_le_self _ _).trans_lt scaled.mantissa_lt
      rw [hscale]
      simp only [← hmag, if_pos (htrunc.trans (by norm_num) : scaled.trunc < 2 ^ 256)]
      constructor
      · intro h
        split at h
        next => cases h
        next hint =>
          cases Except.ok.inj (Option.some.inj h)
          exact ⟨scaled.isInteger_iff.mp (not_not.mp hint), htrunc⟩
      · rintro ⟨hvalue, -⟩
        obtain ⟨hinteger, rfl⟩ := Dec96.isInteger_of_magnitude hvalue
        rw [if_neg (not_not.mpr hinteger)]
    · have hnone : d.checkedMul weiFactor = none := d.checkedMul_powTen_of_le (e := 18) (by norm_num) (not_lt.mp hlt)
      rw [hnone]
      refine ⟨fun h => (by cases h), fun ⟨hvalue, hn⟩ => absurd ?_ hlt⟩
      rw [hvalue]
      exact_mod_cast hn

/-- What the circuit encodes is exact in wei. -/
theorem decimalToWei_of_decimalToScalar {n : Nat} (hn : n < maxEncoded) (h : decimalToScalar d = .ok (n : Fr)) :
    decimalToWei d = some (.ok (n * weiToCircuitScale)) := by
  obtain ⟨hneg, k, hk, hvalue, heq⟩ := decimalToScalar_ok_iff.mp h
  have hmod : maxEncoded < scalarModulus := by decide
  have hnk : n = k := by
    have hval := congrArg ZMod.val heq
    rwa [ZMod.val_natCast_of_lt (hn.trans hmod), ZMod.val_natCast_of_lt (hk.trans hmod)] at hval
  subst hnk
  refine decimalToWei_ok_iff.mpr ⟨hneg, ?_, ?_⟩
  · push_cast [weiToCircuitScale, ← hvalue]
    ring
  · unfold maxEncoded at hn
    unfold weiToCircuitScale
    omega

theorem onGrid_of_decimalToWei {n : Nat} (h : decimalToWei d = some (.ok n)) (hgrid : n % weiToCircuitScale = 0) :
    OnGrid d.value := by
  obtain ⟨-, hvalue, -⟩ := decimalToWei_ok_iff.mp h
  obtain ⟨k, rfl⟩ := Nat.dvd_of_mod_eq_zero hgrid
  refine ⟨k, ?_⟩
  rw [eq_div_iff (by positivity)]
  have hscaled : d.value * 10 ^ 8 * 10 ^ 10 = (k : ℚ) * 10 ^ 10 := by
    rw [mul_assoc, ← pow_add, hvalue]
    push_cast [weiToCircuitScale]
    ring
  exact_mod_cast mul_right_cancel₀ (by positivity) hscaled

/-- The conversions of the representation are those of its value. -/
theorem decimalToScalar_value {f : Fr} :
    decimalToScalar d = .ok f ↔ d.neg = false ∧ DarkPool.decimalToScalar d.value = .ok f := by
  have hscale : DarkPool.scaleFactor = 10 ^ 8 := by norm_num [DarkPool.scaleFactor]
  rw [decimalToScalar_ok_iff, decimalToScalar_eq_ok, hscale]

theorem decimalToWei_value {n : Nat} (h : decimalToWei d = some (.ok n)) : DarkPool.decimalToWei d.value = .ok n := by
  obtain ⟨hneg, hvalue, hn⟩ := decimalToWei_ok_iff.mp h
  have hpos : ¬ d.value < 0 := by
    rw [Dec96.value_of_not_neg hneg]
    exact not_lt.mpr d.magnitude_nonneg
  have hword : n < 2 ^ 256 := hn.trans (by norm_num)
  rw [DarkPool.decimalToWei, if_neg hpos]
  simp only [hvalue, Rat.num_natCast, Rat.den_natCast, Int.toNat_natCast, ne_eq, not_true_eq_false, if_false,
    if_pos hword]

theorem settlementMatchToSol_value {m : Row} {sol : SolMatch} (h : settlementMatchToSol m = some (.ok sol)) :
    DarkPool.settlementMatchToSol m.row = .ok sol := by
  unfold settlementMatchToSol at h
  split at h
  next => cases h
  next => cases h
  next price hprice =>
    split at h
    next => cases h
    next => cases h
    next size hsize =>
      split at h
      next => cases h
      next hgrid =>
        rw [DarkPool.settlementMatchToSol, m.price_eq, m.size_eq, decimalToWei_value hprice, decimalToWei_value hsize]
        refine bind_eq_ok.mpr ⟨_, rfl, bind_eq_ok.mpr ⟨_, rfl, ?_⟩⟩
        rw [if_neg hgrid]
        exact Option.some.inj h

end Represented

open Represented

/-- A row no circuit can have proved: an amount carries a sign, or both are moderate and one is off the grid. -/
def Represented.Row.Unprovable (m : Row) : Prop :=
  m.price.neg = true ∨ m.size.neg = true ∨
    (|m.price.value| < 7 * 10 ^ 10 ∧ |m.size.value| < 7 * 10 ^ 10 ∧ ¬ (OnGrid m.price.value ∧ OnGrid m.size.value))

/-- The price panics before the sign of the size is seen. -/
def Represented.Row.Panics (m : Row) : Prop :=
  m.price.neg = false ∧ 2 ^ 96 ≤ m.price.value * 10 ^ 18 ∧ m.size.neg = true

theorem settlementMatchToSol_of_encodings (m : Row) {price size : Nat} (hprice : price < maxEncoded)
    (hsize : size < maxEncoded) (hp : Represented.decimalToScalar m.price = .ok (price : Fr))
    (hs : Represented.decimalToScalar m.size = .ok (size : Fr)) :
    Represented.settlementMatchToSol m = some (.ok ⟨uuidToBytes32 m.row.bidOrderId, uuidToBytes32 m.row.askOrderId,
      m.row.bidTrader, m.row.askTrader, m.row.baseToken, m.row.quoteToken, price * weiToCircuitScale,
      size * weiToCircuitScale⟩) := by
  rw [Represented.settlementMatchToSol, decimalToWei_of_decimalToScalar hprice hp,
    decimalToWei_of_decimalToScalar hsize hs]
  simp only [Nat.mul_mod_left, ne_eq, not_true_eq_false, or_self, if_false]

/-- A moderate amount does not overflow. -/
theorem decimalToWei_isSome {d : Dec96} (h : |d.value| < 7 * 10 ^ 10) : Represented.decimalToWei d ≠ none := by
  intro hnone
  obtain ⟨-, hle⟩ := decimalToWei_eq_none_iff.mp hnone
  have := (abs_lt.mp h).2
  norm_num at hle this
  linarith

theorem settlementMatchToSol_unprovable {m : Row} (h : m.Unprovable) (hpanic : ¬ m.Panics) :
    ∃ e, Represented.settlementMatchToSol m = some (.error e) := by
  rcases hprice : Represented.decimalToWei m.price with _ | e | price
  · -- An overflow of the price is left only with a size that is not negative, and then both are moderate.
    obtain ⟨hpos, hle⟩ := decimalToWei_eq_none_iff.mp hprice
    rcases h with h | h | ⟨hp, -, -⟩
    · simp [hpos] at h
    · exact absurd ⟨hpos, hle, h⟩ hpanic
    · exact absurd hprice (decimalToWei_isSome hp)
  · exact ⟨e, by rw [Represented.settlementMatchToSol, hprice]⟩
  · rcases hsize : Represented.decimalToWei m.size with _ | e | size
    · obtain ⟨hpos, -⟩ := decimalToWei_eq_none_iff.mp hsize
      rcases h with h | h | ⟨-, hs, -⟩
      · exact absurd (decimalToWei_ok_iff.mp hprice).1 (by simp [h])
      · simp [hpos] at h
      · exact absurd hsize (decimalToWei_isSome hs)
    · exact ⟨e, by rw [Represented.settlementMatchToSol, hprice, hsize]⟩
    · rw [Represented.settlementMatchToSol, hprice, hsize]
      by_cases hgrid : price % weiToCircuitScale ≠ 0 ∨ size % weiToCircuitScale ≠ 0
      · exact ⟨_, if_pos hgrid⟩
      · rw [not_or, not_not, not_not] at hgrid
        rcases h with h | h | ⟨-, -, hoff⟩
        · exact absurd (decimalToWei_ok_iff.mp hprice).1 (by simp [h])
        · exact absurd (decimalToWei_ok_iff.mp hsize).1 (by simp [h])
        · exact absurd ⟨onGrid_of_decimalToWei hprice hgrid.1, onGrid_of_decimalToWei hsize hgrid.2⟩ hoff

/-- The three scales agree on what the circuit encodes, and the rest is refused unless the price panics. -/
theorem numeric_bridge_iff (m : Row) :
    (∀ (d : Dec96) (f : Fr), Represented.decimalToScalar d = .ok f ↔
      d.neg = false ∧ ∃ n : Nat, n < 2 ^ 60 ∧ d.value * 10 ^ 8 = n ∧ f = n) ∧
    (∀ (d : Dec96) (n : Nat), n < 2 ^ 60 → Represented.decimalToScalar d = .ok (n : Fr) →
      Represented.decimalToWei d = some (.ok (n * 10 ^ 10))) ∧
    (∀ price size : Nat, price < 2 ^ 60 → size < 2 ^ 60 →
      Represented.decimalToScalar m.price = .ok (price : Fr) → Represented.decimalToScalar m.size = .ok (size : Fr) →
      ∃ sol, Represented.settlementMatchToSol m = some (.ok sol) ∧ ∀ (d : Deployment) (acc : Nat) (ms : List SolMatch),
        settlementChain d acc (sol :: ms) =
          settlementChain d (d.poseidon5 acc m.row.bidTrader.toNat m.row.askTrader.toNat price size) ms) ∧
    ((m.Unprovable → ∃ e, Represented.settlementMatchToSol m = some (.error e)) ↔ ¬ m.Panics) := by
  refine ⟨fun d f => decimalToScalar_ok_iff, fun d n hn h => decimalToWei_of_decimalToScalar hn h, ?_, ?_⟩
  · intro price size hprice hsize hp hs
    refine ⟨_, settlementMatchToSol_of_encodings m hprice hsize hp hs, fun d acc ms => ?_⟩
    have hscale : 0 < weiToCircuitScale := by decide
    simp only [settlementChain, Nat.mul_mod_left, and_self, Nat.mul_div_cancel _ hscale, require, if_true]
    rfl
  · refine ⟨fun h hpanic => ?_, fun hpanic h => settlementMatchToSol_unprovable h hpanic⟩
    obtain ⟨e, he⟩ := h (Or.inr (Or.inl hpanic.2.2))
    rw [Represented.settlementMatchToSol, decimalToWei_eq_none_iff.mpr ⟨hpanic.1, hpanic.2.1⟩] at he
    cases he

namespace Scenario

/-- The price 8e10 with the size -1. -/
def hugePrice : Represented.Row where
  row := ⟨1, 2, 3, 4, 5, 6, 8 * 10 ^ 10, -1⟩
  price := ⟨false, 8 * 10 ^ 10, 0, by norm_num, Dec96.zero_scale_le⟩
  size := ⟨true, 1, 0, by norm_num, Dec96.zero_scale_le⟩
  price_eq := by norm_num [Dec96.value, Dec96.magnitude]
  size_eq := by norm_num [Dec96.value, Dec96.magnitude]

end Scenario

/-- A negative size is not refused behind a price that overflows. -/
theorem settlementMatchToSol_panics : Scenario.hugePrice.size.neg = true ∧
    Represented.settlementMatchToSol Scenario.hugePrice = none := by
  refine ⟨rfl, ?_⟩
  have hnone : Represented.decimalToWei Scenario.hugePrice.price = none :=
    decimalToWei_eq_none_iff.mpr ⟨rfl, by norm_num [Scenario.hugePrice, Dec96.value, Dec96.magnitude]⟩
  rw [Represented.settlementMatchToSol, hnone]

end DarkPool
