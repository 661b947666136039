import Mathlib.Algebra.Group.Nat.Defs
import Mathlib.Data.List.Induction
import Mathlib.Data.Nat.Basic

namespace Radix

/-- The last `n` digits of `x` in base `b`, most significant first. -/
def toDigits (b : Nat) : Nat → Nat → List Nat
  | 0, _ => []
  | n + 1, x => toDigits b n (x / b) ++ [x % b]

def ofDigits (b : Nat) (ds : List Nat) : Nat := ds.foldl (fun acc d => acc * b + d) 0

theorem length_toDigits (b n x : Nat) : (toDigits b n x).length = n := by
  induction n generalizing x with
  | zero => rfl
  | succ n ih => simp [toDigits, ih]

theorem lt_of_mem_toDigits {b n x d : Nat} (hb : 0 < b) (h : d ∈ toDigits b n x) : d < b := by
  induction n generalizing x with
  | zero => simp [toDigits] at h
  | succ n ih =>
    rcases List.mem_append.mp h with h | h
    · exact ih h
    · rw [List.mem_singleton.mp h]
      exact Nat.mod_lt x hb

theorem ofDigits_toDigits {b : Nat} (n x : Nat) (h : x < b ^ n) :
    ofDigits b (toDigits b n x) = x := by
  induction n generalizing x with
  | zero =>
    have hx : x = 0 := by simpa using h
    rw [hx]
    rfl
  | succ n ih =>
    have hdiv : x / b < b ^ n := Nat.div_lt_of_lt_mul (by rwa [Nat.pow_succ'] at h)
    have hstep : ofDigits b (toDigits b (n + 1) x) = ofDigits b (toDigits b n (x / b)) * b + x % b := by
      simp [toDigits, ofDigits]
    rw [hstep, ih (x / b) hdiv, Nat.div_add_mod']

/-- Digits above the last `n` do not count. -/
theorem ofDigits_toDigits_mod (b n x : Nat) : ofDigits b (toDigits b n x) = x % b ^ n := by
  induction n generalizing x with
  | zero => simp [toDigits, ofDigits, Nat.mod_one]
  | succ n ih =>
    have hstep : ofDigits b (toDigits b (n + 1) x) = ofDigits b (toDigits b n (x / b)) * b + x % b := by
      simp [toDigits, ofDigits]
    rw [hstep, ih, Nat.pow_succ', Nat.mod_mul, Nat.mul_comm, Nat.add_comm]

theorem ofDigits_append (b : Nat) (ds es : List Nat) :
    ofDigits b (ds ++ es) = ofDigits b ds * b ^ es.length + ofDigits b es := by
  induction es using List.reverseRecOn with
  | nil => simp [ofDigits]
  | append_singleton es e ih =>
    have hstep : ∀ xs : List Nat, ofDigits b (xs ++ [e]) = ofDigits b xs * b + e := fun xs => by simp [ofDigits]
    rw [← List.append_assoc, hstep, hstep, ih, List.length_append, List.length_singleton, Nat.pow_succ, Nat.add_mul,
      Nat.mul_assoc, Nat.add_assoc]

/-- The `n` big-endian bytes of `x`. -/
def toBytes (n x : Nat) : List UInt8 := (toDigits 256 n x).map UInt8.ofNat

def ofBytes (bs : List UInt8) : Nat := ofDigits 256 (bs.map UInt8.toNat)

@[simp] theorem length_toBytes (n x : Nat) : (toBytes n x).length = n := by
  rw [toBytes, List.length_map, length_toDigits]

theorem ofBytes_toBytes (n x : Nat) (h : x < 256 ^ n) : ofBytes (toBytes n x) = x := by
  have hmap : ((toDigits 256 n x).map UInt8.ofNat).map UInt8.toNat = toDigits 256 n x := by
    rw [List.map_map]
    refine (List.map_congr_left ?_).trans (List.map_id _)
    intro d hd
    have hlt : d < 256 := lt_of_mem_toDigits (by omega) hd
    exact UInt8.toNat_ofNat_of_lt hlt
  rw [ofBytes, toBytes, hmap, ofDigits_toDigits n x h]

theorem toDigits_ofDigits {b : Nat} (ds : List Nat) (h : ∀ d ∈ ds, d < b) : toDigits b ds.length (ofDigits b ds) = ds := by
  induction ds using List.reverseRecOn with
  | nil => rfl
  | append_singleton ds d ih =>
    have hd : d < b := h d (by simp)
    have hstep : ofDigits b (ds ++ [d]) = ofDigits b ds * b + d := by simp [ofDigits]
    rw [List.length_append, List.length_singleton, toDigits, hstep, Nat.mul_comm, Nat.mul_add_mod,
      Nat.mod_eq_of_lt hd, Nat.mul_add_div (by omega), Nat.div_eq_of_lt hd, Nat.add_zero,
      ih (fun d' hd' => h d' (List.mem_append_left _ hd'))]

theorem toBytes_ofBytes (bs : List UInt8) : toBytes bs.length (ofBytes bs) = bs := by
  have hdigits := toDigits_ofDigits (bs.map UInt8.toNat) (fun d hd => by
    obtain ⟨u, -, rfl⟩ := List.mem_map.mp hd
    exact u.toNat_lt)
  rw [List.length_map] at hdigits
  rw [toBytes, ofBytes, hdigits, List.map_map]
  exact (List.map_congr_left (fun u _ => UInt8.ofNat_toNat)).trans (List.map_id _)

theorem ofDigits_lt {b : Nat} (ds : List Nat) (h : ∀ d ∈ ds, d < b) : ofDigits b ds < b ^ ds.length := by
  induction ds using List.reverseRecOn with
  | nil => simp [ofDigits]
  | append_singleton ds d ih =>
    have hd : d < b := h d (by simp)
    have hds := ih (fun d' hd' => h d' (List.mem_append_left _ hd'))
    have hstep : ofDigits b (ds ++ [d]) = ofDigits b ds * b + d := by simp [ofDigits]
    calc ofDigits b (ds ++ [d]) = ofDigits b ds * b + d := hstep
      _ < (ofDigits b ds + 1) * b := by rw [Nat.succ_mul]; omega
      _ ≤ b ^ ds.length * b := Nat.mul_le_mul_right b hds
      _ = b ^ (ds ++ [d]).length := by rw [List.length_append, List.length_singleton, Nat.pow_succ]

theorem ofBytes_lt (bs : List UInt8) : ofBytes bs < 256 ^ bs.length := by
  have hlt := ofDigits_lt (bs.map UInt8.toNat) (fun d hd => by
    obtain ⟨u, -, rfl⟩ := List.mem_map.mp hd
    exact u.toNat_lt)
  rwa [List.length_map] at hlt

/-- The value of a hexadecimal digit of either case. -/
def hexValue (c : Char) : Option Nat :=
  if '0' ≤ c ∧ c ≤ '9' then some (c.toNat - '0'.toNat)
  else if 'a' ≤ c ∧ c ≤ 'f' then some (c.toNat - 'a'.toNat + 10)
  else if 'A' ≤ c ∧ c ≤ 'F' then some (c.toNat - 'A'.toNat + 10)
  else none

/-- The last `n` lower-case hexadecimal digits of `x`. -/
def toHex (n x : Nat) : List Char := (toDigits 16 n x).map Nat.digitChar

def ofHex (cs : List Char) : Option Nat := (cs.mapM hexValue).map (ofDigits 16)

theorem hexValue_digitChar {d : Nat} (h : d < 16) : hexValue (Nat.digitChar d) = some d := by
  revert d
  decide

@[simp] theorem length_toHex (n x : Nat) : (toHex n x).length = n := by
  rw [toHex, List.length_map, length_toDigits]

theorem ofHex_toHex (n x : Nat) (h : x < 16 ^ n) : ofHex (toHex n x) = some x := by
  have hdigits : ∀ ds : List Nat, (∀ d ∈ ds, d < 16) → (ds.map Nat.digitChar).mapM hexValue = some ds := by
    intro ds hds
    induction ds with
    | nil => rfl
    | cons d ds ih =>
      have hd := hexValue_digitChar (hds d List.mem_cons_self)
      have hrest := ih (fun e he => hds e (List.mem_cons_of_mem d he))
      simp [hd, hrest]
  have hall := hdigits (toDigits 16 n x) (fun d hd => lt_of_mem_toDigits (by omega) hd)
  rw [ofHex, toHex, hall, Option.map_some, ofDigits_toDigits n x h]

theorem hexValue_lt {c : Char} {d : Nat} (h : hexValue c = some d) : d < 16 := by
  simp only [hexValue, Char.le_def, UInt32.le_iff_toNat_le] at h
  split at h
  next hc =>
    have hd := Option.some.inj h
    have hle : c.toNat ≤ 57 := hc.2
    have hzero : '0'.toNat = 48 := rfl
    omega
  next =>
    split at h
    next hc =>
      have hd := Option.some.inj h
      have hle : c.toNat ≤ 102 := hc.2
      have ha : 'a'.toNat = 97 := rfl
      omega
    next =>
      split at h
      next hc =>
        have hd := Option.some.inj h
        have hle : c.toNat ≤ 70 := hc.2
        have ha : 'A'.toNat = 65 := rfl
        omega
      next => simp at h

theorem ofHex_lt {cs : List Char} {n : Nat} (h : ofHex cs = some n) : n < 16 ^ cs.length := by
  have hdigits : ∀ (cs : List Char) (ds : List Nat), cs.mapM hexValue = some ds →
      ds.length = cs.length ∧ ∀ d ∈ ds, d < 16 := by
    intro cs
    induction cs with
    | nil => simp
    | cons c cs ih =>
      intro ds hds
      simp only [List.mapM_cons, Option.bind_eq_bind, Option.pure_def, Option.bind_eq_some_iff,
        Option.some.injEq] at hds
      obtain ⟨d, hd, ds', hds', rfl⟩ := hds
      obtain ⟨hlength, hlt⟩ := ih ds' hds'
      refine ⟨by simp [hlength], ?_⟩
      intro e he
      rcases List.mem_cons.mp he with rfl | he
      · exact hexValue_lt hd
      · exact hlt e he
  obtain ⟨ds, hds, rfl⟩ := Option.map_eq_some_iff.mp h
  obtain ⟨hlength, hlt⟩ := hdigits cs ds hds
  rw [← hlength]
  exact ofDigits_lt ds hlt

def decimalValue (c : Char) : Option Nat :=
  if '0' ≤ c ∧ c ≤ '9' then some (c.toNat - '0'.toNat) else none

/-- The decimal form of a number of at most `w` digits, without leading zeros. -/
def toDecimal (w x : Nat) : List Char :=
  match (toDigits 10 w x).dropWhile (fun d => d == 0) with
  | [] => ['0']
  | d :: ds => (d :: ds).map Nat.digitChar

def ofDecimal (cs : List Char) : Option Nat :=
  if cs.isEmpty then none else (cs.mapM decimalValue).map (ofDigits 10)

def toSigned (w : Nat) (x : Int) : List Char :=
  if x < 0 then '-' :: toDecimal w x.natAbs else toDecimal w x.natAbs

def ofSigned : List Char → Option Int
  | '-' :: cs => (ofDecimal cs).map (fun n : Nat => -(n : Int))
  | '+' :: cs => (ofDecimal cs).map (fun n : Nat => (n : Int))
  | cs => (ofDecimal cs).map (fun n : Nat => (n : Int))

theorem decimalValue_digitChar {d : Nat} (h : d < 10) : decimalValue (Nat.digitChar d) = some d := by
  revert d
  decide

theorem mapM_decimalValue (ds : List Nat) (h : ∀ d ∈ ds, d < 10) :
    (ds.map Nat.digitChar).mapM decimalValue = some ds := by
  induction ds with
  | nil => rfl
  | cons d ds ih =>
    have hd := decimalValue_digitChar (h d List.mem_cons_self)
    have hrest := ih (fun e he => h e (List.mem_cons_of_mem d he))
    simp [hd, hrest]

/-- Leading zeros do not count. -/
theorem ofDigits_dropWhile (b : Nat) (ds : List Nat) :
    ofDigits b (ds.dropWhile (fun d => d == 0)) = ofDigits b ds := by
  induction ds with
  | nil => rfl
  | cons d ds ih =>
    cases d with
    | zero => simpa [ofDigits] using ih
    | succ d => rfl

/-- A decimal form is written with the digits of its number. -/
theorem toDecimal_eq_digits (w x : Nat) (h : x < 10 ^ w) :
    ∃ ds : List Nat, toDecimal w x = ds.map Nat.digitChar ∧ ds ≠ [] ∧ (∀ d ∈ ds, d < 10) ∧ ofDigits 10 ds = x := by
  have hvalue := ofDigits_dropWhile 10 (toDigits 10 w x)
  rw [ofDigits_toDigits w x h] at hvalue
  unfold toDecimal
  split
  next hnil =>
    rw [hnil] at hvalue
    exact ⟨[0], rfl, by simp, by simp, hvalue⟩
  next d ds hcons =>
    have hlt : ∀ e ∈ d :: ds, e < 10 := by
      intro e he
      rw [← hcons] at he
      exact lt_of_mem_toDigits (by omega) (List.dropWhile_subset _ he)
    rw [hcons] at hvalue
    exact ⟨d :: ds, rfl, by simp, hlt, hvalue⟩

theorem ofDecimal_digits (ds : List Nat) (hne : ds ≠ []) (h : ∀ d ∈ ds, d < 10) :
    ofDecimal (ds.map Nat.digitChar) = some (ofDigits 10 ds) := by
  rw [ofDecimal, mapM_decimalValue ds h, Option.map_some]
  simp [hne]

theorem ofDecimal_toDecimal (w x : Nat) (h : x < 10 ^ w) : ofDecimal (toDecimal w x) = some x := by
  obtain ⟨ds, hds, hne, hlt, hvalue⟩ := toDecimal_eq_digits w x h
  rw [hds, ofDecimal_digits ds hne hlt, hvalue]

/-- A decimal form starts with a digit, so its sign is told apart. -/
theorem toDecimal_eq_cons (w x : Nat) : ∃ d < 10, ∃ cs, toDecimal w x = Nat.digitChar d :: cs := by
  unfold toDecimal
  split
  next => exact ⟨0, by omega, [], rfl⟩
  next d ds hcons =>
    have hmem : d ∈ (toDigits 10 w x).dropWhile (fun d => d == 0) := by
      rw [hcons]
      exact List.mem_cons_self
    exact ⟨d, lt_of_mem_toDigits (by omega) (List.dropWhile_subset _ hmem), ds.map Nat.digitChar, rfl⟩

theorem ofSigned_toSigned (w : Nat) (x : Int) (h : x.natAbs < 10 ^ w) : ofSigned (toSigned w x) = some x := by
  unfold toSigned
  split
  next hneg =>
    rw [ofSigned, ofDecimal_toDecimal w x.natAbs h, Option.map_some]
    congr 1
    omega
  next hpos =>
    obtain ⟨d, hd, cs, hcs⟩ := toDecimal_eq_cons w x.natAbs
    have hsign : ∀ d < 10, Nat.digitChar d ≠ '-' ∧ Nat.digitChar d ≠ '+' := by decide
    have hplain : ofSigned (toDecimal w x.natAbs) = (ofDecimal (toDecimal w x.natAbs)).map (fun n : Nat => (n : Int)) := by
      rw [hcs]
      unfold ofSigned
      split
      next heq => exact absurd (List.cons.inj heq).1 (hsign d hd).1
      next heq => exact absurd (List.cons.inj heq).1 (hsign d hd).2
      next => rfl
    rw [hplain, ofDecimal_toDecimal w x.natAbs h, Option.map_some]
    congr 1
    omega

end Radix
