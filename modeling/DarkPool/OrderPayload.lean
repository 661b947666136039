import DarkPool.OrderForm
import DarkPool.FileReopen

namespace DarkPool

/-- A number of the browser: its arithmetic may also give what is not finite. -/
inductive JsNumber
  | finite (value : ℚ)
  | nonFinite

structure DecryptedOrderPayload where
  trader : String
  pair : String
  side : Nat
  price : String
  size : String
  commitmentKey : String
  salt : String
  ttl : JsNumber

/-- The values of the members of an order. -/
inductive JsonValue
  | string (s : String)
  | number (value : ℚ)
  deriving DecidableEq

abbrev JsonObject := List (String × JsonValue)

/-- The text of a JSON object: `JSON.stringify` and `TextEncoder` write it, `serde_json` reads it, and where it
accepts a text that was written it finds in it what was written. -/
structure JsonText where
  write : JsonObject → Bytes
  read : Bytes → Option JsonObject
  read_write : ∀ o o', read (write o) = some o' → o' = o

def sideToNum : Side → Nat
  | .buy => 0
  | .sell => 1

/-- The hex text of the bytes that `crypto.getRandomValues` filled. -/
def randomHex {n : Nat} (bytes : Vector UInt8 n) : String :=
  String.ofList (bytes.toList.flatMap (fun b => Radix.toHex 2 b.toNat))

def buildOrderPayload (trader pair : String) (side : Side) (price size commitmentKey saltHex : String) (ttlNs : JsNumber) :
    DecryptedOrderPayload :=
  ⟨trader, pair, sideToNum side, price, size, commitmentKey, saltHex, ttlNs⟩

def isHexDigit (c : Char) : Bool := isLowercaseHexDigit c || ('A' ≤ c && c ≤ 'F')

/-- `/^0x[0-9a-fA-F]{40}$/`. -/
def isAddressText (s : String) : Bool :=
  match s.toList with
  | '0' :: 'x' :: digits => digits.length = 40 && digits.all isHexDigit
  | _ => false

/-- `/^[0-9a-f]{64}$/`. -/
def isSaltText (s : String) : Bool := s.toList.length = 64 && s.toList.all isLowercaseHexDigit

/-- The members that are written, if the number of nanoseconds is an integer. -/
def DecryptedOrderPayload.members (p : DecryptedOrderPayload) : Option JsonObject :=
  match p.ttl with
  | .nonFinite => none
  | .finite ttl =>
    if ttl.den = 1 then
      some [("trader", .string p.trader), ("pair", .string p.pair), ("side", .number p.side), ("price", .string p.price),
        ("size", .string p.size), ("commitment_key", .string p.commitmentKey), ("salt", .string p.salt),
        ("ttl", .number ttl)]
    else none

def serializeOrder (text : JsonText) (p : DecryptedOrderPayload) : Except String Bytes :=
  if ¬ isAddressText p.trader then
    .error ("trader must be a 0x-prefixed 20-byte address, got \"" ++ p.trader ++ "\"")
  else if p.side ≠ 0 ∧ p.side ≠ 1 then .error ("side must be 0 (Buy) or 1 (Sell), got " ++ toString p.side)
  else if p.price.isEmpty then .error "price must be a non-empty string"
  else if p.size.isEmpty then .error "size must be a non-empty string"
  else if p.commitmentKey.isEmpty then .error "commitment_key must be a non-empty string"
  else if ¬ isSaltText p.salt then .error "salt must be a 32-byte lowercase hex string"
  else
    match p.members with
    | none => .error "ttl must be a finite integer"
    | some o => .ok (text.write o)

/-- What the steps of a submission encrypt: `preparing` draws the two random values, `encrypting` serializes. -/
def submittedBytes (text : JsonText) (trader pair : String) (ttlNs : JsNumber) (form : ValidationInput)
    (commitmentKey salt : Vector UInt8 32) : Except String Bytes :=
  if trader.isEmpty then .error "Connect a wallet to place orders."
  else
    serializeOrder text (buildOrderPayload trader pair form.side form.price form.size (randomHex commitmentKey)
      (randomHex salt) ttlNs)

inductive SerdeError
  | json
  | missingField (name : String)
  | duplicateField (name : String)
  | invalidValue (name : String)
  deriving DecidableEq

/-- The members of a `DecryptedOrder`, none of which has a default. -/
def orderFields : List String :=
  ["trader", "pair", "side", "price", "size", "commitment_key", "salt", "nonce", "expires_at_unix_nanos", "ttl"]

namespace JsonValue

def readString : JsonValue → Option String
  | .string s => some s
  | .number _ => none

def readAddress (v : JsonValue) : Option Address := v.readString.bind parseAddress

def readSide : JsonValue → Option Side
  | .number n => if n = 0 then some .buy else if n = 1 then some .sell else none
  | .string _ => none

/-- An integer in the range of an `i64`. -/
def readI64 : JsonValue → Option Int
  | .number n => if n.den = 1 ∧ -2 ^ 63 ≤ n.num ∧ n.num < 2 ^ 63 then some n.num else none
  | .string _ => none

end JsonValue

section Deserialize

variable (readDecimal : JsonValue → Option Decimal)

/-- The value has the type of the member. -/
def validMember (name : String) (value : JsonValue) : Bool :=
  match name with
  | "trader" => value.readAddress.isSome
  | "side" => value.readSide.isSome
  | "price" | "size" => (readDecimal value).isSome
  | "expires_at_unix_nanos" | "ttl" => value.readI64.isSome
  | _ => value.readString.isSome

/-- One member of the text: unknown ones are skipped. -/
def visitMember (seen : JsonObject) (member : String × JsonValue) : Except SerdeError JsonObject :=
  if member.1 ∉ orderFields then .ok seen
  else if (seen.lookup member.1).isSome then .error (.duplicateField member.1)
  else if validMember readDecimal member.1 member.2 then .ok (member :: seen)
  else .error (.invalidValue member.1)

def takeField {α : Type} (seen : JsonObject) (name : String) (read : JsonValue → Option α) : Except SerdeError α :=
  match seen.lookup name with
  | none => .error (.missingField name)
  | some value =>
    match read value with
    | none => .error (.invalidValue name)
    | some a => .ok a

/-- The order, whose `ttl` has to be there and is not used. -/
def buildOrder (seen : JsonObject) : Except SerdeError DecryptedOrder := do
  let trader ← takeField seen "trader" JsonValue.readAddress
  let pair ← takeField seen "pair" JsonValue.readString
  let side ← takeField seen "side" JsonValue.readSide
  let price ← takeField seen "price" readDecimal
  let size ← takeField seen "size" readDecimal
  let commitmentKey ← takeField seen "commitment_key" JsonValue.readString
  let salt ← takeField seen "salt" JsonValue.readString
  let nonce ← takeField seen "nonce" JsonValue.readString
  let expiresAtUnixNanos ← takeField seen "expires_at_unix_nanos" JsonValue.readI64
  let _ ← takeField seen "ttl" JsonValue.readI64
  return ⟨trader, pair, side, price, size, commitmentKey, salt, nonce, expiresAtUnixNanos⟩

def deserializeMembers (o : JsonObject) : Except SerdeError DecryptedOrder := do
  let seen ← o.foldlM (visitMember readDecimal) []
  buildOrder readDecimal seen

/-- `serde_json::from_slice` of a `DecryptedOrder`. -/
def deserializeOrder (text : JsonText) (bytes : Bytes) : Except SerdeError DecryptedOrder :=
  match text.read bytes with
  | none => .error .json
  | some o => deserializeMembers readDecimal o

variable {readDecimal}

theorem lookup_isSome {seen : JsonObject} {name : String} (h : (seen.lookup name).isSome = true) :
    name ∈ seen.map Prod.fst := by
  induction seen with
  | nil => simp at h
  | cons m seen ih =>
    by_cases hname : name = m.1
    · simp [hname]
    · have hne : (name == m.1) = false := by simpa using hname
      rw [List.lookup_cons, hne] at h
      exact List.mem_cons_of_mem _ (ih h)

theorem takeField_ok {α : Type} {seen : JsonObject} {name : String} {read : JsonValue → Option α} {a : α}
    (h : takeField seen name read = .ok a) : name ∈ seen.map Prod.fst := by
  unfold takeField at h
  split at h
  next => simp at h
  next value hvalue => exact lookup_isSome (by simp [hvalue])

theorem buildOrder_ok {seen : JsonObject} {d : DecryptedOrder} (h : buildOrder readDecimal seen = .ok d) :
    ∀ name ∈ orderFields, name ∈ seen.map Prod.fst := by
  simp only [buildOrder, bind_eq_ok] at h
  obtain ⟨trader, htrader, pair, hpair, side, hside, price, hprice, size, hsize, key, hkey, salt, hsalt, nonce, hnonce,
    expires, hexpires, ttl, httl, -⟩ := h
  simp only [orderFields, List.forall_mem_cons, List.not_mem_nil, false_implies, implies_true, and_true]
  exact ⟨takeField_ok htrader, takeField_ok hpair, takeField_ok hside, takeField_ok hprice, takeField_ok hsize,
    takeField_ok hkey, takeField_ok hsalt, takeField_ok hnonce, takeField_ok hexpires, takeField_ok httl⟩

theorem visitMember_mem {seen seen' : JsonObject} {member : String × JsonValue} {name : String}
    (h : visitMember readDecimal seen member = .ok seen') (hname : name ∈ seen'.map Prod.fst) :
    name ∈ seen.map Prod.fst ∨ name = member.1 := by
  unfold visitMember at h
  split at h
  next =>
    cases Except.ok.inj h
    exact .inl hname
  next =>
    split at h
    next => simp at h
    next =>
      split at h
      next =>
        cases Except.ok.inj h
        rcases List.mem_cons.mp hname with heq | hmem
        · exact .inr heq
        · exact .inl hmem
      next => simp at h

theorem foldlM_visitMember_mem {o seen seen' : JsonObject} {name : String}
    (h : o.foldlM (visitMember readDecimal) seen = .ok seen') (hname : name ∈ seen'.map Prod.fst) :
    name ∈ seen.map Prod.fst ∨ name ∈ o.map Prod.fst := by
  induction o generalizing seen with
  | nil =>
    cases Except.ok.inj h
    exact .inl hname
  | cons member o ih =>
    rw [List.foldlM_cons] at h
    obtain ⟨mid, hmid, hrest⟩ := bind_eq_ok.mp h
    rcases ih hrest with hmem | hmem
    · rcases visitMember_mem hmid hmem with hold | heq
      · exact .inl hold
      · exact .inr (heq ▸ List.mem_cons_self)
    · exact .inr (List.mem_cons_of_mem _ hmem)

/-- A text that deserializes has every member of an order. -/
theorem deserializeMembers_ok {o : JsonObject} {d : DecryptedOrder} (h : deserializeMembers readDecimal o = .ok d) :
    ∀ name ∈ orderFields, name ∈ o.map Prod.fst := by
  obtain ⟨seen, hseen, hbuild⟩ := bind_eq_ok.mp h
  intro name hname
  rcases foldlM_visitMember_mem hseen (buildOrder_ok hbuild name hname) with hnil | hmem
  · simp at hnil
  · exact hmem

end Deserialize

theorem members_keys {p : DecryptedOrderPayload} {o : JsonObject} (h : p.members = some o) :
    o.map Prod.fst = ["trader", "pair", "side", "price", "size", "commitment_key", "salt", "ttl"] := by
  unfold DecryptedOrderPayload.members at h
  split at h
  next => simp at h
  next ttl =>
    split at h
    next =>
      cases Option.some.inj h
      rfl
    next => simp at h

theorem serializeOrder_ok {text : JsonText} {p : DecryptedOrderPayload} {bytes : Bytes}
    (h : serializeOrder text p = .ok bytes) : ∃ o, p.members = some o ∧ bytes = text.write o := by
  unfold serializeOrder at h
  simp only [guard_eq_ok] at h
  obtain ⟨-, -, -, -, -, -, h⟩ := h
  split at h
  next => simp at h
  next o ho => exact ⟨o, ho, (Except.ok.inj h).symm⟩

/-- The bytes are those of an order with the price and the size of the form, and the engine takes its members. -/
structure Admits (js : DecimalJs) (text : JsonText) (readDecimal : JsonValue → Option Decimal) (form : ValidationInput)
    (bytes : Bytes) (d : DecryptedOrder) : Prop where
  order : deserializeOrder readDecimal text bytes = .ok d
  price : js.toDecimal form.price = some d.price
  size : js.toDecimal form.size = some d.size
  salt : (parseOrderSalt d.salt).isOk = true
  nonce : (parseOrderNonce d.nonce).isOk = true
  expiry : (orderExpiryFromUnixNanos d.expiresAtUnixNanos).isOk = true
  priceScalar : (decimalToScalar d.price).isOk = true
  sizeScalar : (decimalToScalar d.size).isOk = true

/-- The engine admits no order of the form: the payload has neither a nonce nor an expiry, which an order must have. -/
theorem web_order_refused (js : DecimalJs) (text : JsonText) (readDecimal : JsonValue → Option Decimal)
    (form : AcceptedForm js) (trader pair : String) (ttlNs : JsNumber) (commitmentKey salt : Vector UInt8 32) :
    ¬ ∃ bytes d, submittedBytes text trader pair ttlNs form.val commitmentKey salt = .ok bytes ∧
      Admits js text readDecimal form.val bytes d := by
  rintro ⟨bytes, d, hbytes, hadmits⟩
  unfold submittedBytes at hbytes
  rw [guard_eq_ok] at hbytes
  obtain ⟨o, ho, rfl⟩ := serializeOrder_ok hbytes.2
  have horder := hadmits.order
  unfold deserializeOrder at horder
  split at horder
  next => simp at horder
  next o' hread =>
    rw [text.read_write o o' hread] at horder
    have hnonce := deserializeMembers_ok horder "nonce" (by decide)
    rw [members_keys ho] at hnonce
    revert hnonce
    decide

namespace Scenario

/-- A number library that knows the numbers of the form below. -/
def decimalJs : DecimalJs where
  trim := id
  new := fun s =>
    match s with
    | "2000" => some (.finite 2000)
    | "0.5" => some (.finite (1 / 2))
    | "5000" => some (.finite 5000)
    | _ => none
  times := (· * ·)
  plus := (· + ·)
  div := (· / ·)

def buyForm : AcceptedForm decimalJs := ⟨⟨.buy, "2000", "0.5", "", "5000", true⟩, by decide +kernel⟩

def readDecimal (v : JsonValue) : Option Decimal :=
  match v with
  | .string s => match decimalJs.toDecimal s with
    | some d => some d
    | none => none
  | .number _ => none

def traderText : String := "0x00000000000000000000000000000000000000a1"

/-- The members of the submitted order. -/
def buyMembers : JsonObject :=
  [("trader", .string traderText), ("pair", .string "ETH/USDC"), ("side", .number 0), ("price", .string "2000"),
    ("size", .string "0.5"), ("commitment_key", .string (randomHex (Vector.replicate 32 7))),
    ("salt", .string (randomHex (Vector.replicate 32 9))), ("ttl", .number 300000000000)]

end Scenario

deriving instance Countable for JsonValue

theorem exists_jsonText : ∃ text : JsonText, ∀ o, text.read (text.write o) = some o := by
  obtain ⟨codec, -, -⟩ := RecordCodec.exists_codec ([] : List JsonObject) (fun _ => 0)
  refine ⟨⟨codec.serialize, codec.deserialize, fun o o' h => ?_⟩, codec.deserialize_serialize⟩
  rw [codec.deserialize_serialize] at h
  exact (Option.some.inj h).symm

open Scenario in
theorem web_order_lacks_nonce : ∃ text bytes,
    submittedBytes text traderText "ETH/USDC" (.finite 300000000000) buyForm.val (Vector.replicate 32 7)
      (Vector.replicate 32 9) = .ok bytes ∧
    deserializeOrder readDecimal text bytes = .error (.missingField "nonce") := by
  obtain ⟨text, htext⟩ := exists_jsonText
  refine ⟨text, text.write buyMembers, ?_, ?_⟩
  · unfold submittedBytes serializeOrder
    rw [if_neg (by decide), if_neg (by decide), if_neg (by decide), if_neg (by decide), if_neg (by decide),
      if_neg (by decide), if_neg (by decide)]
    rfl
  · unfold deserializeOrder
    rw [htext]
    decide

end DarkPool
