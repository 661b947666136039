import DarkPool.Lib.PlainDecimal
import DarkPool.NumericBridge

namespace DarkPool

/-- What a computation of the number library gives: a number, or what is none. -/
inductive Extended (α : Type)
  | nan
  | infinite (neg : Bool)
  | finite (a : α)

/-- A finite number of the library; zero has a sign too. -/
structure SignedDecimal where
  neg : Bool
  magnitude : TerminatingDecimal

abbrev DecimalInstance := Extended SignedDecimal

/-- `Decimal | string`. -/
inductive DecimalInput
  | decimal (d : DecimalInstance)
  | text (s : String)

inductive WireField
  | size
  | price

inductive UnitsError
  | empty
  | invalid (value : String)
  | nonFinite (value : String)
  | negative (field : WireField) (d : DecimalInstance)
  | precision (field : WireField) (d : DecimalInstance)
  | aboveMax (field : WireField) (d : DecimalInstance)
  | exponent (field : WireField) (wire : String)

def wireMaxDp : Nat := 8

def wireMaxScaled : Nat := 2 ^ 60

namespace DecimalInstance

def isNegative : DecimalInstance → Bool
  | .nan => false
  | .infinite neg => neg
  | .finite d => d.neg

def isFinite : DecimalInstance → Bool
  | .finite _ => true
  | _ => false

/-- `NaN` for what is not finite, and `NaN` is above no number. -/
def decimalPlaces : DecimalInstance → Option Nat
  | .finite d => some d.magnitude.places
  | _ => none

/-- The product with a positive factor, rounded to the twenty digits of the library's precision. -/
def times (d : DecimalInstance) (factor : ℚ) : Extended ℚ :=
  match d with
  | .nan => .nan
  | .infinite neg => .infinite neg
  | .finite x =>
    let product := SignificantDigits.round 20 (x.magnitude.value * factor)
    .finite (if x.neg then -product else product)

def toFixed : DecimalInstance → String
  | .nan => "NaN"
  | .infinite neg => if neg then "-Infinity" else "Infinity"
  | .finite x =>
    let text := PlainDecimal.toPlain x.magnitude.mantissa x.magnitude.places
    String.ofList (if x.neg ∧ x.magnitude.value ≠ 0 then '-' :: text else text)

end DecimalInstance

/-- A comparison with `NaN` is false. -/
def Extended.gte (x : Extended ℚ) (y : ℚ) : Bool :=
  match x with
  | .nan => false
  | .infinite neg => !neg
  | .finite a => y ≤ a

/-- The white space that `String.prototype.trim` takes off. -/
def isJsSpace (c : Char) : Bool :=
  let n := c.toNat
  (9 ≤ n && n ≤ 13) || n == 0x20 || n == 0xA0 || n == 0x1680 || (0x2000 ≤ n && n ≤ 0x200A) || n == 0x2028 ||
    n == 0x2029 || n == 0x202F || n == 0x205F || n == 0x3000 || n == 0xFEFF

def jsTrim (cs : List Char) : List Char := ((cs.dropWhile isJsSpace).reverse.dropWhile isJsSpace).reverse

section Units

-- `newOther` is what `new Decimal` makes of texts in any other notation than plain digits
variable (newOther : List Char → Option DecimalInstance)

def newDecimal (cs : List Char) : Option DecimalInstance :=
  let (neg, digits) := match cs with
    | '-' :: digits => (true, digits)
    | digits => (false, digits)
  match PlainDecimal.readPlain digits with
  | some (n, k) => some (.finite ⟨neg, .ofMantissa n k⟩)
  | none => newOther cs

/-- The finiteness of a text is checked, that of an instance is not. -/
def toDecimal (value : DecimalInput) : Except UnitsError DecimalInstance :=
  match value with
  | .decimal d => .ok d
  | .text s =>
    let trimmed := jsTrim s.toList
    if trimmed = [] then .error .empty
    else
      match newDecimal newOther trimmed with
      | none => .error (.invalid s)
      | some d => if d.isFinite then .ok d else .error (.nonFinite s)

def assertWireBounds (d : DecimalInstance) (field : WireField) : Except UnitsError Unit :=
  if d.isNegative then .error (.negative field d)
  else if d.decimalPlaces.any (fun k => wireMaxDp < k) then .error (.precision field d)
  else if (d.times (10 ^ wireMaxDp)).gte wireMaxScaled then .error (.aboveMax field d)
  else .ok ()

def toWire (value : DecimalInput) (field : WireField) : Except UnitsError String := do
  let d ← toDecimal newOther value
  assertWireBounds d field
  return d.toFixed

def fromWire (wire : String) (field : WireField) : Except UnitsError DecimalInstance :=
  if wire.toList.any (fun c => c == 'e' || c == 'E') then .error (.exponent field wire)
  else do
    let d ← toDecimal newOther (.text wire)
    assertWireBounds d field
    return d

def toWireSize (value : DecimalInput) : Except UnitsError String := toWire newOther value .size

def toWirePrice (value : DecimalInput) : Except UnitsError String := toWire newOther value .price

def fromWireSize (wire : String) : Except UnitsError DecimalInstance := fromWire newOther wire .size

def fromWirePrice (wire : String) : Except UnitsError DecimalInstance := fromWire newOther wire .price

end Units

def isDecimalDigit (c : Char) : Bool := (Radix.decimalValue c).isSome

/-- `Decimal::from_str`: digits that fit are taken as they are. What is made of other texts is left open. -/
def decimalFromStr (fromOther : List Char → Option Dec96) (s : String) : Option Dec96 :=
  match PlainDecimal.readPlain s.toList with
  | none => fromOther s.toList
  | some (n, k) =>
    if h : n < 2 ^ 96 ∧ k ≤ 28 ∧ s.toList.head?.any isDecimalDigit ∧ s.toList.getLast?.any isDecimalDigit then
      some ⟨false, n, k, h.1, h.2.1⟩
    else fromOther s.toList

namespace DecimalInstance

/-- Finite, without a sign, and an integer below the bound after scaling. -/
def Wireable (v : DecimalInstance) : Prop :=
  ∃ x : SignedDecimal, v = .finite x ∧ x.neg = false ∧ ∃ n : Nat, n < wireMaxScaled ∧ x.magnitude.value * 10 ^ wireMaxDp = n

/-- `eq`: zeros of both signs are equal, and `NaN` is equal to nothing. -/
def eq : DecimalInstance → DecimalInstance → Prop
  | .finite x, .finite y =>
    (if x.neg then -x.magnitude.value else x.magnitude.value) = if y.neg then -y.magnitude.value else y.magnitude.value
  | .infinite neg, .infinite neg' => neg = neg'
  | _, _ => False

end DecimalInstance

/-- The wire form of a number: given exactly where the encoder of the circuit takes the number, written with
digits and at most one point, and read back to the number by both sides. -/
structure WireExact (newOther : List Char → Option DecimalInstance) (fromOther : List Char → Option Dec96)
    (v : DecimalInstance) : Prop where
  accepts : ∀ field, (∃ s, toWire newOther (.decimal v) field = .ok s) ↔ v.Wireable
  encodes : v.Wireable ↔ ∃ x f, v = .finite x ∧ x.neg = false ∧ decimalToScalar x.magnitude.value = .ok f
  plain : ∀ field s, toWire newOther (.decimal v) field = .ok s → ('e' ∉ s.toList ∧ 'E' ∉ s.toList) ∧
    ('.' ∈ s.toList → s.toList.getLast? ≠ some '0' ∧ s.toList.getLast? ≠ some '.')
  reads : ∀ field s, toWire newOther (.decimal v) field = .ok s → fromWire newOther s field = .ok v
  parses : ∀ field s, toWire newOther (.decimal v) field = .ok s → ∃ x d f, v = .finite x ∧
    decimalFromStr fromOther s = some d ∧ d.value = x.magnitude.value ∧ Represented.decimalToScalar d = .ok f
  canonical : ∀ field field' w s, toWire newOther (.decimal v) field = .ok s → v.eq w →
    ∀ s', toWire newOther (.decimal w) field' = .ok s' → s' = s

section Exact

variable {newOther : List Char → Option DecimalInstance} {fromOther : List Char → Option Dec96}

theorem toWire_decimal {v : DecimalInstance} {field : WireField} {s : String} :
    toWire newOther (.decimal v) field = .ok s ↔ assertWireBounds v field = .ok () ∧ s = v.toFixed := by
  simp only [toWire, toDecimal, bind_eq_ok, pure, Except.pure, Except.ok.injEq, exists_eq_left', eq_comm (a := s)]
  exact ⟨fun ⟨(), h⟩ => h, fun h => ⟨(), h⟩⟩

/-- The bound is checked on a rounded product, which is exact below it and does not fall below it. -/
theorem assertWireBounds_finite (x : SignedDecimal) (field : WireField) :
    assertWireBounds (.finite x) field = .ok () ↔
      x.neg = false ∧ ∃ n : Nat, n < wireMaxScaled ∧ x.magnitude.value * 10 ^ wireMaxDp = n := by
  simp only [assertWireBounds, guard_eq_ok, DecimalInstance.isNegative, DecimalInstance.decimalPlaces, Option.any_some,
    DecimalInstance.times, Extended.gte, decide_eq_true_eq, Bool.not_eq_true, and_true, not_lt]
  constructor
  · rintro ⟨hneg, hplaces, hbound⟩
    obtain ⟨n, hn⟩ := x.magnitude.places_le_iff.mp hplaces
    refine ⟨hneg, n, ?_, hn⟩
    by_contra hlarge
    rw [hneg, hn] at hbound
    have hle : ((wireMaxScaled : Nat) : ℚ) ≤ n := by exact_mod_cast not_lt.mp hlarge
    exact hbound (SignificantDigits.le_round (by norm_num [wireMaxScaled]) hle)
  · rintro ⟨hneg, n, hlt, hn⟩
    refine ⟨hneg, x.magnitude.places_le_iff.mpr ⟨n, hn⟩, ?_⟩
    have hdigits : n < 10 ^ 20 := hlt.trans (by norm_num [wireMaxScaled])
    rw [hneg, hn, SignificantDigits.round_natCast hdigits]
    simpa using hlt

theorem assertWireBounds_infinite (neg : Bool) (field : WireField) : assertWireBounds (.infinite neg) field ≠ .ok () := by
  cases neg with
  | true => simp [assertWireBounds, DecimalInstance.isNegative]
  | false =>
    simp [assertWireBounds, DecimalInstance.isNegative, DecimalInstance.decimalPlaces, DecimalInstance.times, Extended.gte]

theorem toFixed_finite {x : SignedDecimal} (h : x.neg = false) :
    (DecimalInstance.toFixed (.finite x)).toList = PlainDecimal.toPlain x.magnitude.mantissa x.magnitude.places := by
  simp [DecimalInstance.toFixed, h]

theorem jsTrim_toPlain (n k : Nat) : jsTrim (PlainDecimal.toPlain n k) = PlainDecimal.toPlain n k := by
  have hdigit : ∀ d < 10, isJsSpace (Nat.digitChar d) = false := by decide
  have hspace : ∀ c ∈ PlainDecimal.toPlain n k, isJsSpace c = false := by
    intro c hc
    rcases PlainDecimal.mem_toPlain hc with rfl | ⟨d, hd, rfl⟩
    · decide
    · exact hdigit d hd
  have hkeep : ∀ cs : List Char, (∀ c ∈ cs, isJsSpace c = false) → cs.dropWhile isJsSpace = cs := by
    intro cs hcs
    cases cs with
    | nil => rfl
    | cons c cs => exact List.dropWhile_cons_of_neg (by simp [hcs c List.mem_cons_self])
  rw [jsTrim, hkeep _ hspace, hkeep _ (fun c hc => hspace c (List.mem_reverse.mp hc)), List.reverse_reverse]

theorem newDecimal_toPlain (x : TerminatingDecimal) :
    newDecimal newOther (PlainDecimal.toPlain x.mantissa x.places) = some (.finite ⟨false, x⟩) := by
  obtain ⟨d, hd, -, -, hhead, -, -⟩ := PlainDecimal.toPlain_bounds x.mantissa x.places
  have hread := PlainDecimal.readPlain_toPlain x.mantissa x.places
  have hdigit : ∀ d < 10, Nat.digitChar d ≠ '-' := by decide
  cases htext : PlainDecimal.toPlain x.mantissa x.places with
  | nil => simp [htext] at hhead
  | cons c cs =>
    rw [htext] at hhead hread
    have hc : c = Nat.digitChar d := by simpa using hhead
    have hsign : c ≠ '-' := hc ▸ hdigit d hd
    simp only [newDecimal, List.cons.injEq, hsign, false_and, imp_self, implies_true, hread,
      TerminatingDecimal.ofMantissa_mantissa]

/-- The wire form of an accepted number is read back to it. -/
theorem fromWire_toFixed {x : SignedDecimal} {field : WireField} (hneg : x.neg = false)
    (h : assertWireBounds (.finite x) field = .ok ()) :
    fromWire newOther (DecimalInstance.toFixed (.finite x)) field = .ok (.finite x) := by
  have hletters : ∀ d < 10, Nat.digitChar d ≠ 'e' ∧ Nat.digitChar d ≠ 'E' := by decide
  have hexponent : (PlainDecimal.toPlain x.magnitude.mantissa x.magnitude.places).any (fun c => c == 'e' || c == 'E') =
      false := by
    rw [List.any_eq_false]
    intro c hc
    rcases PlainDecimal.mem_toPlain hc with rfl | ⟨d, hd, rfl⟩
    · decide
    · simp [hletters d hd]
  have hne : PlainDecimal.toPlain x.magnitude.mantissa x.magnitude.places ≠ [] := by
    obtain ⟨d, -, -, -, hhead, -, -⟩ := PlainDecimal.toPlain_bounds x.magnitude.mantissa x.magnitude.places
    intro hnil
    simp [hnil] at hhead
  have hx : (⟨false, x.magnitude⟩ : SignedDecimal) = x := by rw [← hneg]
  simp only [fromWire, toDecimal, toFixed_finite hneg, hexponent, jsTrim_toPlain, newDecimal_toPlain, hne, hx, h,
    DecimalInstance.isFinite, Bool.false_eq_true, if_false, if_true, bind, Except.bind, pure, Except.pure]

theorem decimalFromStr_toFixed {x : SignedDecimal} {n : Nat} (hneg : x.neg = false) (hn : n < wireMaxScaled)
    (hvalue : x.magnitude.value * 10 ^ wireMaxDp = n) :
    ∃ d, decimalFromStr fromOther (DecimalInstance.toFixed (.finite x)) = some d ∧ d.neg = false ∧
      d.value = x.magnitude.value := by
  have hplaces : x.magnitude.places ≤ wireMaxDp := x.magnitude.places_le_iff.mpr ⟨n, hvalue⟩
  have hmantissa : x.magnitude.mantissa ≤ n := by
    have hle : (x.magnitude.mantissa : ℚ) ≤ n := by
      rw [x.magnitude.mantissa_eq, ← hvalue]
      exact mul_le_mul_of_nonneg_left (pow_le_pow_right₀ (by norm_num) hplaces) x.magnitude.nonneg
    exact_mod_cast hle
  have hfits : x.magnitude.mantissa < 2 ^ 96 := (hmantissa.trans_lt hn).trans (by norm_num [wireMaxScaled])
  have hscale : x.magnitude.places ≤ 28 := hplaces.trans (by norm_num [wireMaxDp])
  have hdigit : ∀ d < 10, isDecimalDigit (Nat.digitChar d) = true := by decide
  obtain ⟨d, hd, e, he, hhead, hlast, -⟩ := PlainDecimal.toPlain_bounds x.magnitude.mantissa x.magnitude.places
  refine ⟨⟨false, x.magnitude.mantissa, x.magnitude.places, hfits, hscale⟩, ?_, rfl, ?_⟩
  · simp only [decimalFromStr, toFixed_finite hneg, PlainDecimal.readPlain_toPlain]
    rw [dif_pos ⟨hfits, hscale, by simp [hhead, hdigit d hd], by simp [hlast, hdigit e he]⟩]
  · rw [Dec96.value_of_not_neg rfl, Dec96.magnitude, x.magnitude.value_eq]

theorem toFixed_plain {x : SignedDecimal} (hneg : x.neg = false) :
    let text := (DecimalInstance.toFixed (.finite x)).toList
    ('e' ∉ text ∧ 'E' ∉ text) ∧ ('.' ∈ text → text.getLast? ≠ some '0' ∧ text.getLast? ≠ some '.') := by
  have hletters : ∀ d < 10, 'e' ≠ Nat.digitChar d ∧ 'E' ≠ Nat.digitChar d ∧ '.' ≠ Nat.digitChar d := by decide
  have hzero : ∀ d < 10, Nat.digitChar d = '0' → d = 0 := by decide
  intro text
  have htext : text = PlainDecimal.toPlain x.magnitude.mantissa x.magnitude.places := toFixed_finite hneg
  rw [htext]
  refine ⟨⟨fun he => ?_, fun he => ?_⟩, fun hpoint => ?_⟩
  · rcases PlainDecimal.mem_toPlain he with he | ⟨d, hd, he⟩
    · exact absurd he (by decide)
    · exact (hletters d hd).1 he
  · rcases PlainDecimal.mem_toPlain he with he | ⟨d, hd, he⟩
    · exact absurd he (by decide)
    · exact (hletters d hd).2.1 he
  · obtain ⟨-, -, e, he, -, hlast, hdigit⟩ := PlainDecimal.toPlain_bounds x.magnitude.mantissa x.magnitude.places
    rw [hlast]
    -- a point is only written before digits
    have hplaces : 0 < x.magnitude.places := by
      by_contra hnone
      obtain ⟨ds, -, hds, -, hplain⟩ := PlainDecimal.toPlain_eq x.magnitude.mantissa x.magnitude.places
      rw [hplain, if_pos (by omega)] at hpoint
      obtain ⟨d, hd, hchar⟩ := List.mem_map.mp hpoint
      exact (hletters d (hds d hd)).2.2 hchar.symm
    have hne : e ≠ 0 := by
      rw [hdigit hplaces]
      exact x.magnitude.mantissa_mod_ten hplaces
    refine ⟨fun h => hne (hzero e he (Option.some.inj h)), fun h => (hletters e he).2.2 (Option.some.inj h).symm⟩

/-- The wire form is exact for every instance but `NaN`, whose text goes out as a number. -/
theorem toWire_exact_iff (newOther : List Char → Option DecimalInstance) (fromOther : List Char → Option Dec96)
    (v : DecimalInstance) : WireExact newOther fromOther v ↔ v ≠ .nan := by
  constructor
  · rintro h rfl
    obtain ⟨x, hx, -⟩ := (h.accepts .price).mp ⟨"NaN", rfl⟩
    cases hx
  · intro hv
    cases v with
    | nan => exact absurd rfl hv
    | infinite neg =>
      have hrefused : ∀ field s, toWire newOther (.decimal (.infinite neg)) field ≠ .ok s :=
        fun field s h => assertWireBounds_infinite neg field (toWire_decimal.mp h).1
      have hwireable : ¬ DecimalInstance.Wireable (.infinite neg) := fun ⟨_, hx, _⟩ => by cases hx
      exact {
        accepts := fun field => ⟨fun ⟨s, h⟩ => absurd h (hrefused field s), fun h => absurd h hwireable⟩
        encodes := ⟨fun h => absurd h hwireable, fun ⟨_, _, hx, _⟩ => by cases hx⟩
        plain := fun field s h => absurd h (hrefused field s)
        reads := fun field s h => absurd h (hrefused field s)
        parses := fun field s h => absurd h (hrefused field s)
        canonical := fun field _ _ s h => absurd h (hrefused field s) }
    | finite x =>
      have hscale : scaleFactor = 10 ^ wireMaxDp := by norm_num [scaleFactor, wireMaxDp]
      have haccepted : ∀ field s, toWire newOther (.decimal (.finite x)) field = .ok s →
          x.neg = false ∧ assertWireBounds (.finite x) field = .ok () ∧ s = DecimalInstance.toFixed (.finite x) := by
        intro field s h
        obtain ⟨hbounds, hs⟩ := toWire_decimal.mp h
        exact ⟨((assertWireBounds_finite x field).mp hbounds).1, hbounds, hs⟩
      exact {
        accepts := fun field => by
          constructor
          · rintro ⟨s, h⟩
            exact ⟨x, rfl, (assertWireBounds_finite x field).mp (toWire_decimal.mp h).1⟩
          · rintro ⟨y, hy, h⟩
            cases hy
            exact ⟨_, toWire_decimal.mpr ⟨(assertWireBounds_finite x field).mpr h, rfl⟩⟩
        encodes := by
          constructor
          · rintro ⟨y, hy, hneg, n, hn, hvalue⟩
            exact ⟨y, n, hy, hneg, decimalToScalar_eq_ok.mpr ⟨n, hn, by rw [hscale]; exact hvalue, rfl⟩⟩
          · rintro ⟨y, f, hy, hneg, hf⟩
            obtain ⟨n, hn, hvalue, -⟩ := decimalToScalar_eq_ok.mp hf
            exact ⟨y, hy, hneg, n, hn, by rw [← hscale]; exact hvalue⟩
        plain := fun field s h => by
          obtain ⟨hneg, -, rfl⟩ := haccepted field s h
          exact toFixed_plain hneg
        reads := fun field s h => by
          obtain ⟨hneg, hbounds, rfl⟩ := haccepted field s h
          exact fromWire_toFixed hneg hbounds
        parses := fun field s h => by
          obtain ⟨hneg, hbounds, rfl⟩ := haccepted field s h
          obtain ⟨-, n, hn, hvalue⟩ := (assertWireBounds_finite x field).mp hbounds
          obtain ⟨d, hd, hdneg, hdvalue⟩ := decimalFromStr_toFixed hneg hn hvalue
          refine ⟨x, d, n, rfl, hd, hdvalue, Represented.decimalToScalar_ok_iff.mpr ⟨hdneg, n, hn, ?_, rfl⟩⟩
          rw [hdvalue]
          exact hvalue
        canonical := fun field field' w s h hw s' h' => by
          obtain ⟨hneg, -, rfl⟩ := haccepted field s h
          cases w with
          | nan => exact hw.elim
          | infinite neg => exact hw.elim
          | finite y =>
            obtain ⟨hbounds, rfl⟩ := toWire_decimal.mp h'
            have hneg' := ((assertWireBounds_finite y field').mp hbounds).1
            have hvalue : x.magnitude.value = y.magnitude.value := by
              simpa [DecimalInstance.eq, hneg, hneg'] using hw
            have hxy : y = x := by
              cases x
              cases y
              simp only at hneg hneg' hvalue
              rw [hneg, hneg', TerminatingDecimal.ext hvalue]
            rw [hxy] }

/-- The text `NaN` is given as a price, though it is no number and the text itself is refused. -/
theorem toWirePrice_nan :
    toWirePrice (fun _ => none) (.decimal .nan) = .ok "NaN" ∧ ¬ DecimalInstance.Wireable .nan ∧
      ∀ d, fromWirePrice (fun _ => some .nan) "NaN" ≠ .ok d := by
  refine ⟨rfl, fun ⟨_, hx, _⟩ => (by cases hx), ?_⟩
  intro d h
  have hread : fromWirePrice (fun _ => some .nan) "NaN" = .error (.nonFinite "NaN") := rfl
  rw [hread] at h
  cases h

end Exact

end DarkPool
