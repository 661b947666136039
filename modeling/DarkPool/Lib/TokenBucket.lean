import Mathlib.Algebra.Order.Field.Basic
import Mathlib.Data.List.Count
import Mathlib.Data.List.Infix
import Mathlib.Data.List.Pairwise
import Mathlib.Tactic.Linarith
import Mathlib.Tactic.Ring

namespace TokenBucket

/-- What a bucket held when it was last asked, and when that was. -/
structure Bucket (F : Type) where
  tokens : F
  last : F

section Definitions

variable {F : Type} [Field F] [LinearOrder F] (rate capacity : F)

/-- What the bucket holds at a time; one that was never asked is full. -/
def level : Option (Bucket F) → F → F
  | none, _ => capacity
  | some b, now => min capacity (b.tokens + (now - b.last) * rate)

/-- A request takes a whole token or is refused. -/
def request (b : Option (Bucket F)) (now : F) : Bool × Bucket F :=
  if level rate capacity b now < 1 then (false, ⟨level rate capacity b now, now⟩)
  else (true, ⟨level rate capacity b now - 1, now⟩)

def answers : Option (Bucket F) → List F → List Bool
  | _, [] => []
  | b, t :: ts => (request rate capacity b t).1 :: answers (some (request rate capacity b t).2) ts

def after : Option (Bucket F) → List F → Option (Bucket F)
  | b, [] => b
  | b, t :: ts => after (some (request rate capacity b t).2) ts

/-- No stretch of the requests asks for more than a full bucket and what flows in meanwhile. -/
def Conforms (ts : List F) : Prop :=
  ∀ mid s e, mid <:+: ts → mid.head? = some s → mid.getLast? = some e → (mid.length : F) ≤ capacity + (e - s) * rate

end Definitions

variable {F : Type} [Field F] [LinearOrder F] {rate capacity : F} {b : Option (Bucket F)} {t now : F} {ts us : List F}

@[simp] theorem request_last : (request rate capacity b now).2.last = now := by
  unfold request
  split <;> rfl

theorem answers_append (b : Option (Bucket F)) (ts us : List F) :
    answers rate capacity b (ts ++ us) =
      answers rate capacity b ts ++ answers rate capacity (after rate capacity b ts) us := by
  induction ts generalizing b with
  | nil => rfl
  | cons t ts ih => simp only [List.cons_append, answers, after, ih]

theorem Conforms.initial (h : Conforms rate capacity (ts ++ us)) : Conforms rate capacity ts :=
  fun mid s e hmid => h mid s e (hmid.trans (List.infix_append' [] ts us))

variable [IsStrictOrderedRing F]

theorem request_tokens_nonneg (h : 0 ≤ level rate capacity b now) : 0 ≤ (request rate capacity b now).2.tokens := by
  unfold request
  split
  next => exact h
  next hge => exact sub_nonneg.mpr (not_lt.mp hge)

theorem level_nonneg {b : Bucket F} (hrate : 0 ≤ rate) (hcap : 0 ≤ capacity) (hb : 0 ≤ b.tokens)
    (hnow : b.last ≤ now) : 0 ≤ level rate capacity (some b) now :=
  le_min hcap (add_nonneg hb (mul_nonneg (sub_nonneg.mpr hnow) hrate))

/-- A bucket left alone long enough is full again. -/
theorem level_eq_capacity {b : Bucket F} (hb : 0 ≤ b.tokens) (h : capacity ≤ (now - b.last) * rate) :
    level rate capacity (some b) now = capacity := by
  apply min_eq_left
  linarith

end TokenBucket
