import Mathlib.Data.Rat.Floor

namespace DarkPool

/-- The value of a `rust_decimal::Decimal`: comparisons are by value, so a
trailing zero in the scale is not visible. -/
abbrev Decimal := ℚ

abbrev Uuid := BitVec 128

instance lawfulBEqUuid : LawfulBEq Uuid := inferInstance

abbrev Address := BitVec 160

abbrev Bytes := List UInt8

/-- Nanoseconds since the Unix epoch, which is also `DateTime::default()`. -/
abbrev DateTime := Int

inductive Side
  | buy
  | sell
  deriving DecidableEq

structure Order where
  id : Uuid
  trader : Address
  pair : String
  side : Side
  price : Decimal
  size : Decimal
  remainingSize : Decimal
  commitmentKey : String
  encryptedPayload : Bytes
  submittedAt : DateTime
  expiresAt : DateTime
  seq : Nat
  deriving DecidableEq

structure Fill where
  orderId : Uuid
  size : Decimal
  deriving DecidableEq

structure Match where
  bid : Fill
  ask : Fill
  price : Decimal
  size : Decimal
  deriving DecidableEq

def Order.withRemaining (o : Order) (r : Decimal) : Order := { o with remainingSize := r }

/-- A fresh order as the test suites build it: nothing filled, no payload, no expiry. -/
def makeOrder (id : Uuid) (trader : Address) (side : Side) (price size : Decimal) (seq : Nat) : Order where
  id := id
  trader := trader
  pair := "BTC-USD"
  side := side
  price := price
  size := size
  remainingSize := size
  commitmentKey := ""
  encryptedPayload := []
  submittedAt := 0
  expiresAt := 0
  seq := seq

@[simp] theorem Order.withRemaining_id (o : Order) (r : Decimal) : (o.withRemaining r).id = o.id := rfl

@[simp] theorem Order.withRemaining_trader (o : Order) (r : Decimal) :
    (o.withRemaining r).trader = o.trader := rfl

@[simp] theorem Order.withRemaining_remainingSize (o : Order) (r : Decimal) :
    (o.withRemaining r).remainingSize = r := rfl

@[simp] theorem Order.withRemaining_self (o : Order) : o.withRemaining o.remainingSize = o := rfl

@[simp] theorem Order.withRemaining_withRemaining (o : Order) (r s : Decimal) :
    (o.withRemaining r).withRemaining s = o.withRemaining s := rfl

end DarkPool
