import Mathlib.Algebra.Field.ZMod
import Mathlib.Data.ZMod.Basic
import Mathlib.Tactic.LinearCombination
import Mathlib.Tactic.Ring

namespace FieldBits

variable {p : Nat}

/-- The value of bits, the lowest first. -/
def sum : List (ZMod p) → ZMod p
  | [] => 0
  | b :: bs => b + (sum bs + sum bs)

/-- The integer that the bits spell. -/
def spelled : List (ZMod p) → Nat
  | [] => 0
  | b :: bs => b.val + 2 * spelled bs

/-- A decomposition into bits: each is constrained to be one, they sum to the value, and the integer they
spell is below the modulus. -/
structure Decomposes (width : Nat) (x : ZMod p) (bits : List (ZMod p)) : Prop where
  length : bits.length = width
  boolean : ∀ b ∈ bits, b * (1 - b) = 0
  sums : sum bits = x
  canonical : spelled bits < p

/-- A decomposition exists whose bits from the `n`-th on are zero. -/
def InRange (width n : Nat) (x : ZMod p) : Prop :=
  ∃ bits, Decomposes width x bits ∧ ∀ b ∈ bits.drop n, b = 0

theorem cast_spelled [NeZero p] (bits : List (ZMod p)) : (spelled bits : ZMod p) = sum bits := by
  induction bits with
  | nil => simp [spelled, sum]
  | cons b bs ih => simp [spelled, sum, ih, two_mul]

theorem boolean_iff [Fact p.Prime] {b : ZMod p} : b * (1 - b) = 0 ↔ b = 0 ∨ b = 1 := by
  rw [mul_eq_zero, sub_eq_zero, eq_comm (a := (1 : ZMod p))]

theorem val_le_one [Fact p.Prime] {b : ZMod p} (hb : b * (1 - b) = 0) : b.val ≤ 1 := by
  rcases boolean_iff.mp hb with rfl | rfl
  · simp
  · exact (ZMod.val_one p).le

theorem spelled_eq_zero {bits : List (ZMod p)} (h : ∀ b ∈ bits, b = 0) : spelled bits = 0 := by
  induction bits with
  | nil => rfl
  | cons b bs ih =>
    rw [spelled, h b List.mem_cons_self, ih (fun c hc => h c (List.mem_cons_of_mem b hc))]
    simp

theorem spelled_lt [Fact p.Prime] {bits : List (ZMod p)} (hb : ∀ b ∈ bits, b * (1 - b) = 0) (n : Nat)
    (hzero : ∀ b ∈ bits.drop n, b = 0) : spelled bits < 2 ^ n := by
  induction bits generalizing n with
  | nil => exact Nat.two_pow_pos n
  | cons b bs ih =>
    cases n with
    | zero =>
      rw [spelled_eq_zero (by simpa using hzero)]
      exact Nat.two_pow_pos 0
    | succ n =>
      have hbit := val_le_one (hb b List.mem_cons_self)
      have hrest := ih (fun c hc => hb c (List.mem_cons_of_mem b hc)) n hzero
      rw [spelled, pow_succ]
      omega

/-- The bits of an integer, as field elements. -/
def bitsOf : Nat → Nat → List (ZMod p)
  | 0, _ => []
  | width + 1, n => ((n % 2 : Nat) : ZMod p) :: bitsOf width (n / 2)

theorem length_bitsOf (width n : Nat) : (bitsOf width n : List (ZMod p)).length = width := by
  induction width generalizing n with
  | zero => rfl
  | succ width ih => simp [bitsOf, ih]

theorem boolean_bitsOf [Fact p.Prime] (width n : Nat) : ∀ b ∈ (bitsOf width n : List (ZMod p)), b * (1 - b) = 0 := by
  induction width generalizing n with
  | zero => simp [bitsOf]
  | succ width ih =>
    intro b hb
    rcases List.mem_cons.mp hb with rfl | hb
    · rcases Nat.mod_two_eq_zero_or_one n with h | h <;> simp [h]
    · exact ih _ b hb

theorem spelled_bitsOf [Fact p.Prime] (width n : Nat) (h : n < 2 ^ width) :
    spelled (bitsOf width n : List (ZMod p)) = n := by
  induction width generalizing n with
  | zero =>
    have hn : n = 0 := by simpa using h
    simp [bitsOf, spelled, hn]
  | succ width ih =>
    have hbit : ((n % 2 : Nat) : ZMod p).val = n % 2 :=
      ZMod.val_natCast_of_lt ((Nat.mod_lt n two_pos).trans_le (Fact.out : p.Prime).two_le)
    rw [bitsOf, spelled, hbit, ih _ (by rw [pow_succ] at h; omega)]
    omega

theorem drop_bitsOf (width n k : Nat) (h : n < 2 ^ k) : ∀ b ∈ (bitsOf width n : List (ZMod p)).drop k, b = 0 := by
  induction width generalizing n k with
  | zero => simp [bitsOf]
  | succ width ih =>
    cases k with
    | zero =>
      have hn : n = 0 := by simpa using h
      subst hn
      intro b hb
      rcases List.mem_cons.mp hb with rfl | hb
      · simp
      · exact ih 0 0 (by simp) b (by simpa using hb)
    | succ k =>
      intro b hb
      exact ih (n / 2) k (by rw [pow_succ] at h; omega) b (by simpa [bitsOf] using hb)

/-- What a range check enforces: nothing wraps around, since the decomposition is canonical. -/
theorem inRange_iff [Fact p.Prime] {width n : Nat} (hp : p ≤ 2 ^ width) {x : ZMod p} :
    InRange width n x ↔ x.val < 2 ^ n := by
  constructor
  · rintro ⟨bits, hbits, hzero⟩
    have hval : x.val = spelled bits := by
      rw [← hbits.sums, ← cast_spelled, ZMod.val_natCast_of_lt hbits.canonical]
    exact hval ▸ spelled_lt hbits.boolean n hzero
  · intro h
    have hspelled : spelled (bitsOf width x.val : List (ZMod p)) = x.val :=
      spelled_bitsOf width x.val ((ZMod.val_lt x).trans_le hp)
    refine ⟨bitsOf width x.val, ⟨length_bitsOf _ _, boolean_bitsOf _ _, ?_, ?_⟩, drop_bitsOf _ _ n h⟩
    · rw [← cast_spelled, hspelled, ZMod.natCast_zmod_val]
    · rw [hspelled]
      exact ZMod.val_lt x

section NoWrap

variable {a b : ZMod p}

/-- A difference that leaves room for the subtrahend is one of integers. -/
theorem val_sub_add (h : (a - b).val + b.val < p) : (a - b).val + b.val = a.val := by
  rw [← ZMod.val_add_of_lt h, sub_add_cancel]

theorem val_le_of_sub {k m : Nat} (hsub : (a - b).val < 2 ^ k) (hb : b.val < 2 ^ m) (hroom : 2 ^ k + 2 ^ m ≤ p) :
    b.val ≤ a.val := by
  have hval := val_sub_add (a := a) (b := b) (by omega)
  omega

/-- Two one-sided checks around zero pin an integer within the limit, whatever the element. -/
theorem exists_int_of_two_sided [NeZero p] {k : Nat} (hlo : (a - b).val < 2 ^ k) (hhi : (a + b).val < 2 ^ k)
    (ha : a.val < 2 ^ k) (hroom : 2 * 2 ^ k ≤ p) : ∃ x : ℤ, |x| ≤ a.val ∧ (x : ZMod p) = b := by
  have hsum : (a - b).val + (a + b).val = a.val + a.val := by
    rw [← ZMod.val_add_of_lt (by omega), ← ZMod.val_add_of_lt (by omega)]
    congr 1
    ring
  refine ⟨(a + b).val - a.val, ?_, ?_⟩
  · rw [abs_le]
    omega
  · push_cast
    rw [ZMod.natCast_zmod_val, ZMod.natCast_zmod_val]
    ring

end NoWrap

end FieldBits
