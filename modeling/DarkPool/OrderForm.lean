import DarkPool.Types

namespace DarkPool

/-- What `new Decimal` makes of a text it does not throw on. -/
inductive JsDecimal
  | finite (value : ℚ)
  | nonFinite

/-- The number library of the form and the `trim` of its strings. The operations round to its precision. -/
structure DecimalJs where
  trim : String → String
  new : String → Option JsDecimal
  times : ℚ → ℚ → ℚ
  plus : ℚ → ℚ → ℚ
  div : ℚ → ℚ → ℚ

inductive ValidationCode
  | priceRequired
  | priceInvalid
  | priceBelowMin
  | sizeRequired
  | sizeInvalid
  | sizeBelowMin
  | insufficientBalance
  | walletDisconnected
  deriving DecidableEq

structure ValidationErrors where
  price : Option ValidationCode
  size : Option ValidationCode
  form : Option ValidationCode
  deriving DecidableEq

structure ValidationInput where
  side : Side
  price : String
  size : String
  baseBalance : String
  quoteBalance : String
  isConnected : Bool

/-- The codes of one field of the form. -/
structure FieldCodes where
  required : ValidationCode
  invalid : ValidationCode
  belowMin : ValidationCode

def feeBps : ℚ := 5

def minPrice : ℚ := 1 / 100

def minSize : ℚ := 1 / 10000

namespace DecimalJs

variable (js : DecimalJs)

/-- Throws on the empty text, on what is not a number, and on what is not finite. -/
def toDecimal (value : String) : Option ℚ :=
  let trimmed := js.trim value
  if trimmed = "" then none
  else
    match js.new trimmed with
    | some (.finite d) => some d
    | _ => none

def isParseable (value : String) : Bool := js.trim value ≠ ""

def computeTotal (price size : String) : Option ℚ :=
  if js.isParseable price ∧ js.isParseable size then do
    let p ← js.toDecimal price
    let s ← js.toDecimal size
    if p < 0 ∨ s < 0 then none else some (js.times p s)
  else none

def computeFee (total : ℚ) : ℚ := js.div (js.times total feeBps) 10000

def computeGrandTotal (price size : String) : Option ℚ :=
  (js.computeTotal price size).map (fun total => js.plus total (js.computeFee total))

def safeLte (value : ℚ) (balanceRaw : String) : Bool :=
  match js.toDecimal balanceRaw with
  | some balance => value ≤ balance
  | none => false

/-- A buy pays the total with the fee in quote, a sell its size in base. -/
def checkBalance (input : ValidationInput) : Bool :=
  if input.isConnected then
    match input.side with
    | .buy =>
      match js.computeGrandTotal input.price input.size with
      | some grand => js.safeLte grand input.quoteBalance
      | none => true
    | .sell =>
      match js.toDecimal input.size with
      | some size => js.safeLte size input.baseBalance
      | none => true
  else true

def validateField (raw : String) (min : ℚ) (codes : FieldCodes) : Option ValidationCode :=
  if js.trim raw = "" then some codes.required
  else
    match js.toDecimal raw with
    | none => some codes.invalid
    | some d => if d ≤ 0 then some codes.invalid else if d < min then some codes.belowMin else none

def validateOrder (input : ValidationInput) : ValidationErrors :=
  let form := if input.isConnected then none else some .walletDisconnected
  let price := js.validateField input.price minPrice ⟨.priceRequired, .priceInvalid, .priceBelowMin⟩
  let size := js.validateField input.size minSize ⟨.sizeRequired, .sizeInvalid, .sizeBelowMin⟩
  let form :=
    if price.isNone ∧ size.isNone ∧ ¬ js.checkBalance input then form <|> some .insufficientBalance else form
  ⟨price, size, form⟩

end DecimalJs

/-- A form without errors, which may be submitted. -/
def AcceptedForm (js : DecimalJs) : Type := { input : ValidationInput // js.validateOrder input = ⟨none, none, none⟩ }

end DarkPool
