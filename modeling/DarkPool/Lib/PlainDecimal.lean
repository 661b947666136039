import Mathlib.Algebra.Order.Field.Power
import Mathlib.Algebra.Order.Floor.Semifield
import Mathlib.Algebra.Order.Floor.Ring
import Mathlib.Data.Int.Log
import Mathlib.Data.List.TakeWhile
import Mathlib.Data.Nat.Cast.Field
import Mathlib.Data.Rat.Floor
import Mathlib.Tactic.FieldSimp
import Mathlib.Tactic.Linarith
import Mathlib.Tactic.NormNum
import Mathlib.Tactic.Positivity
import DarkPool.Lib.Radix

/-- A number that finitely many decimal digits write exactly. -/
structure TerminatingDecimal where
  value : ℚ
  nonneg : 0 ≤ value
  ends : ∃ k : Nat, (value * 10 ^ k).den = 1

namespace TerminatingDecimal

variable (x : TerminatingDecimal)

/-- The digits after the point. -/
def places : Nat := Nat.find x.ends

def mantissa : Nat := (x.value * 10 ^ x.places).num.toNat

theorem mantissa_eq : (x.mantissa : ℚ) = x.value * 10 ^ x.places := by
  have hint : ((x.value * 10 ^ x.places).num : ℚ) = x.value * 10 ^ x.places :=
    Rat.coe_int_num_of_den_eq_one (Nat.find_spec x.ends)
  have hnonneg : 0 ≤ (x.value * 10 ^ x.places).num := Rat.num_nonneg.mpr (mul_nonneg x.nonneg (by positivity))
  rw [mantissa, ← hint]
  exact_mod_cast Int.toNat_of_nonneg hnonneg

theorem value_eq : x.value = x.mantissa / 10 ^ x.places := by
  rw [mantissa_eq]
  field_simp

/-- A number has at most `k` places if its `k`-th decimal shift is an integer. -/
theorem places_le_iff {k : Nat} : x.places ≤ k ↔ ∃ n : Nat, x.value * 10 ^ k = n := by
  constructor
  · intro h
    refine ⟨x.mantissa * 10 ^ (k - x.places), ?_⟩
    push_cast
    rw [mantissa_eq, mul_assoc, ← pow_add, Nat.add_sub_cancel' h]
  · rintro ⟨n, hn⟩
    refine Nat.find_le ?_
    rw [hn]
    exact Rat.den_natCast n

/-- The last digit after the point is not a zero. -/
theorem mantissa_mod_ten (h : 0 < x.places) : x.mantissa % 10 ≠ 0 := by
  intro hzero
  have hshort : x.places ≤ x.places - 1 := by
    refine x.places_le_iff.mpr ⟨x.mantissa / 10, ?_⟩
    have hdvd : 10 ∣ x.mantissa := Nat.dvd_of_mod_eq_zero hzero
    have hpow : (10 : ℚ) ^ x.places = 10 ^ (x.places - 1) * 10 := by rw [← pow_succ, Nat.sub_add_cancel h]
    rw [Nat.cast_div hdvd (by norm_num), mantissa_eq, hpow]
    push_cast
    field_simp
  omega

@[ext] theorem ext {x y : TerminatingDecimal} (h : x.value = y.value) : x = y := by
  cases x
  cases y
  cases h
  rfl

/-- The number with `n` for its digits, `k` of them after the point. -/
def ofMantissa (n k : Nat) : TerminatingDecimal where
  value := n / 10 ^ k
  nonneg := by positivity
  ends := ⟨k, by
    have hcancel : (n : ℚ) / 10 ^ k * 10 ^ k = n := by field_simp
    rw [hcancel]
    exact Rat.den_natCast n⟩

@[simp] theorem ofMantissa_mantissa : ofMantissa x.mantissa x.places = x := ext x.value_eq.symm

end TerminatingDecimal

namespace PlainDecimal

/-- The digits of `n` with a point before the last `k` of them, and no point where there is none after it. -/
def toPlain (n k : Nat) : List Char :=
  let int := Radix.toDecimal (Nat.log 10 (n / 10 ^ k) + 1) (n / 10 ^ k)
  if k = 0 then int else int ++ '.' :: (Radix.toDigits 10 k n).map Nat.digitChar

/-- The digits of a text and how many of them are after its point. -/
def readPlain (cs : List Char) : Option (Nat × Nat) :=
  let int := cs.takeWhile (fun c => c != '.')
  match cs.dropWhile (fun c => c != '.') with
  | [] => (Radix.ofDecimal int).map (fun n => (n, 0))
  | _ :: frac => (Radix.ofDecimal (int ++ frac)).map (fun n => (n, frac.length))

theorem digitChar_ne_point {d : Nat} (h : d < 10) : Nat.digitChar d ≠ '.' := by
  revert d
  decide

/-- The text is digits, with digits after a point or not. -/
theorem toPlain_eq (n k : Nat) : ∃ ds : List Nat, ds ≠ [] ∧ (∀ d ∈ ds, d < 10) ∧ Radix.ofDigits 10 ds = n / 10 ^ k ∧
    toPlain n k = if k = 0 then ds.map Nat.digitChar
      else ds.map Nat.digitChar ++ '.' :: (Radix.toDigits 10 k n).map Nat.digitChar := by
  have hlt : n / 10 ^ k < 10 ^ (Nat.log 10 (n / 10 ^ k) + 1) := Nat.lt_pow_succ_log_self (by norm_num) _
  obtain ⟨ds, hds, hne, hdigits, hvalue⟩ := Radix.toDecimal_eq_digits _ _ hlt
  exact ⟨ds, hne, hdigits, hvalue, by simp only [toPlain, hds]⟩

theorem readPlain_toPlain (n k : Nat) : readPlain (toPlain n k) = some (n, k) := by
  obtain ⟨ds, hne, hdigits, hvalue, htext⟩ := toPlain_eq n k
  have hpoint : ∀ c ∈ ds.map Nat.digitChar, (c != '.') = true := by
    intro c hc
    obtain ⟨d, hd, rfl⟩ := List.mem_map.mp hc
    simp [digitChar_ne_point (hdigits d hd)]
  rw [htext]
  split
  next hk =>
    subst hk
    have hread := Radix.ofDecimal_digits ds hne hdigits
    rw [hvalue, pow_zero, Nat.div_one] at hread
    have htake := List.takeWhile_eq_self_iff.mpr hpoint
    have hdrop := List.dropWhile_eq_nil_iff.mpr hpoint
    simp only [readPlain, htake, hdrop, hread, Option.map_some]
  next =>
    have hall : ∀ d ∈ ds ++ Radix.toDigits 10 k n, d < 10 := by
      intro d hd
      rcases List.mem_append.mp hd with hd | hd
      · exact hdigits d hd
      · exact Radix.lt_of_mem_toDigits (by norm_num) hd
    have hread := Radix.ofDecimal_digits (ds ++ Radix.toDigits 10 k n) (by simp [hne]) hall
    rw [Radix.ofDigits_append, Radix.length_toDigits, hvalue, Radix.ofDigits_toDigits_mod, Nat.div_add_mod',
      List.map_append] at hread
    have htake : (ds.map Nat.digitChar ++ '.' :: (Radix.toDigits 10 k n).map Nat.digitChar).takeWhile (fun c => c != '.') =
        ds.map Nat.digitChar := by
      rw [List.takeWhile_append_of_pos hpoint]
      simp
    have hdrop : (ds.map Nat.digitChar ++ '.' :: (Radix.toDigits 10 k n).map Nat.digitChar).dropWhile (fun c => c != '.') =
        '.' :: (Radix.toDigits 10 k n).map Nat.digitChar := by
      rw [List.dropWhile_append_of_pos hpoint]
      simp
    simp only [readPlain, htake, hdrop, hread, Option.map_some, List.length_map, Radix.length_toDigits]

/-- A text of digits and points. -/
theorem mem_toPlain {n k : Nat} {c : Char} (h : c ∈ toPlain n k) : c = '.' ∨ ∃ d < 10, c = Nat.digitChar d := by
  obtain ⟨ds, -, hdigits, -, htext⟩ := toPlain_eq n k
  have hdigit : ∀ es : List Nat, (∀ d ∈ es, d < 10) → c ∈ es.map Nat.digitChar → ∃ d < 10, c = Nat.digitChar d := by
    intro es hes hc
    obtain ⟨d, hd, rfl⟩ := List.mem_map.mp hc
    exact ⟨d, hes d hd, rfl⟩
  rw [htext] at h
  split at h
  next => exact .inr (hdigit ds hdigits h)
  next =>
    rcases List.mem_append.mp h with h | h
    · exact .inr (hdigit ds hdigits h)
    · rcases List.mem_cons.mp h with h | h
      · exact .inl h
      · exact .inr (hdigit _ (fun d hd => Radix.lt_of_mem_toDigits (by norm_num) hd) h)

/-- The first and the last sign of a text are digits. -/
theorem toPlain_bounds (n k : Nat) : ∃ d < 10, ∃ e < 10, (toPlain n k).head? = some (Nat.digitChar d) ∧
    (toPlain n k).getLast? = some (Nat.digitChar e) ∧ (0 < k → e = n % 10) := by
  obtain ⟨ds, hne, hdigits, -, htext⟩ := toPlain_eq n k
  obtain ⟨d, es, rfl⟩ := List.exists_cons_of_ne_nil hne
  rw [htext]
  split
  next hk =>
    refine ⟨d, hdigits d List.mem_cons_self, (d :: es).getLast hne, hdigits _ (List.getLast_mem hne), rfl, ?_, by omega⟩
    rw [List.getLast?_map, List.getLast?_eq_some_getLast hne, Option.map_some]
  next hk =>
    obtain ⟨j, rfl⟩ := Nat.exists_eq_succ_of_ne_zero hk
    refine ⟨d, hdigits d List.mem_cons_self, n % 10, Nat.mod_lt _ (by norm_num), rfl, ?_, fun _ => rfl⟩
    rw [Radix.toDigits, List.map_append, ← List.cons_append, ← List.append_assoc]
    exact List.getLast?_concat

end PlainDecimal

namespace SignificantDigits

/-- Rounds to `p` significant digits, the half away from zero. -/
def round (p : Nat) (x : ℚ) : ℚ :=
  let unit : ℚ := 10 ^ (Int.log 10 x + 1 - p)
  ⌊x / unit + 1 / 2⌋ * unit

section Unit

variable {p : Nat} {j : ℤ}

/-- An integer is a whole number of units that are not above one. -/
theorem natCast_div_unit (n : Nat) (hj : j ≤ 0) : ((n * 10 ^ (-j).toNat : Nat) : ℚ) * 10 ^ j = n := by
  have hcancel : (10 : ℚ) ^ (-j).toNat * 10 ^ j = 1 := by
    rw [← zpow_natCast, Int.toNat_of_nonneg (by omega), ← zpow_add₀ (by norm_num), neg_add_cancel, zpow_zero]
  push_cast
  rw [mul_assoc, hcancel, mul_one]

theorem le_floor_mul_unit {n : Nat} {x : ℚ} (hj : j ≤ 0) (h : (n : ℚ) ≤ x) :
    (n : ℚ) ≤ ⌊x / 10 ^ j + 1 / 2⌋ * 10 ^ j := by
  have hunit : (0 : ℚ) < 10 ^ j := by positivity
  have hle : ((n * 10 ^ (-j).toNat : Nat) : ℚ) ≤ x / 10 ^ j := by
    rw [le_div_iff₀ hunit, natCast_div_unit n hj]
    exact h
  have hfloor : ((n * 10 ^ (-j).toNat : Nat) : ℤ) ≤ ⌊x / 10 ^ j + 1 / 2⌋ := by
    rw [Int.le_floor]
    push_cast at hle ⊢
    linarith
  calc (n : ℚ) = ((n * 10 ^ (-j).toNat : Nat) : ℚ) * 10 ^ j := (natCast_div_unit n hj).symm
    _ ≤ ⌊x / 10 ^ j + 1 / 2⌋ * 10 ^ j := by
      refine mul_le_mul_of_nonneg_right ?_ hunit.le
      exact_mod_cast hfloor

end Unit

/-- An integer of at most `p` digits is kept. -/
theorem round_natCast {p n : Nat} (h : n < 10 ^ p) : round p n = n := by
  rcases Nat.eq_zero_or_pos n with rfl | hpos
  · norm_num [round]
  · have hlog : Nat.log 10 n < p := Nat.log_lt_of_lt_pow hpos.ne' h
    have hj : Int.log 10 (n : ℚ) + 1 - p ≤ 0 := by
      rw [Int.log_natCast]
      omega
    have hdiv : (n : ℚ) / 10 ^ (Int.log 10 (n : ℚ) + 1 - p) =
        ((n * 10 ^ (-(Int.log 10 (n : ℚ) + 1 - p)).toNat : Nat) : ℚ) := by
      rw [div_eq_iff (by positivity), natCast_div_unit n hj]
    have hfloor : ⌊(((n * 10 ^ (-(Int.log 10 (n : ℚ) + 1 - p)).toNat : Nat) : ℤ) : ℚ) + 1 / 2⌋ =
        ((n * 10 ^ (-(Int.log 10 (n : ℚ) + 1 - p)).toNat : Nat) : ℤ) := by
      rw [Int.floor_intCast_add]
      norm_num
    simp only [round]
    rw [hdiv]
    rw [Int.cast_natCast] at hfloor
    rw [hfloor, Int.cast_natCast, natCast_div_unit n hj]

/-- Rounding does not take a number below an integer of at most `p` digits. -/
theorem le_round {p n : Nat} {x : ℚ} (hn : n < 10 ^ p) (h : (n : ℚ) ≤ x) : (n : ℚ) ≤ round p x := by
  by_cases hj : Int.log 10 x + 1 - p ≤ 0
  · exact le_floor_mul_unit hj h
  · -- the number has more than `p` digits, so what is kept of it has `p`
    rw [not_le] at hj
    rcases Nat.eq_zero_or_pos n with rfl | hpos
    · have hfloor : 0 ≤ ⌊x / 10 ^ (Int.log 10 x + 1 - p) + 1 / 2⌋ := by
        rw [Int.floor_nonneg]
        have hx : (0 : ℚ) ≤ x := by exact_mod_cast h
        positivity
      simp only [round, Nat.cast_zero]
      exact mul_nonneg (by exact_mod_cast hfloor) (by positivity)
    · have hx : (0 : ℚ) < x := lt_of_lt_of_le (by exact_mod_cast hpos) h
      have hp : 0 < p := by
        by_contra hzero
        have hp0 : p = 0 := by omega
        rw [hp0, pow_zero] at hn
        omega
      have hunit : (0 : ℚ) < 10 ^ (Int.log 10 x + 1 - p) := by positivity
      have hkept : ((10 ^ (p - 1) : Nat) : ℤ) ≤ ⌊x / 10 ^ (Int.log 10 x + 1 - p) + 1 / 2⌋ := by
        rw [Int.le_floor]
        have hself : ((10 : Nat) : ℚ) ^ Int.log 10 x ≤ x := Int.zpow_log_le_self (by norm_num) hx
        have hsplit : ((10 ^ (p - 1) : Nat) : ℚ) * 10 ^ (Int.log 10 x + 1 - p) = 10 ^ Int.log 10 x := by
          push_cast
          rw [← zpow_natCast, ← zpow_add₀ (by norm_num)]
          congr 1
          omega
        have hle : ((10 ^ (p - 1) : Nat) : ℚ) ≤ x / 10 ^ (Int.log 10 x + 1 - p) := by
          rw [le_div_iff₀ hunit, hsplit]
          exact_mod_cast hself
        push_cast at hle ⊢
        linarith
      have hten : (10 : ℚ) ≤ 10 ^ (Int.log 10 x + 1 - p) := by
        have hmono := zpow_le_zpow_right₀ (by norm_num : (1 : ℚ) ≤ 10) (by omega : (1 : ℤ) ≤ Int.log 10 x + 1 - p)
        rwa [zpow_one] at hmono
      calc (n : ℚ) ≤ ((10 ^ p : Nat) : ℚ) := by exact_mod_cast hn.le
        _ = ((10 ^ (p - 1) : Nat) : ℚ) * 10 := by
          push_cast
          rw [← pow_succ, Nat.sub_add_cancel hp]
        _ ≤ ⌊x / 10 ^ (Int.log 10 x + 1 - p) + 1 / 2⌋ * 10 ^ (Int.log 10 x + 1 - p) := by
          refine mul_le_mul ?_ hten (by norm_num) ?_
          · exact_mod_cast hkept
          · exact_mod_cast (Int.natCast_nonneg _).trans hkept

end SignificantDigits
