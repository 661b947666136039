import Mathlib.Data.List.Forall2
import DarkPool.Encoding

namespace DarkPool

/-- The validation errors; `min` and `tick` carry the decimal instead of its printed form. -/
inductive DarkPoolError
  | pairRequired
  | priceMustBePositive
  | sizeMustBePositive
  | commitmentKeyRequired
  | orderNotFound
  | pairNotRegistered (pair : String)
  | pairNotAccepting (pair : String)
  | orderSizeBelowMinimum (pair : String) (min : Decimal)
  | orderPriceNotOnTick (pair : String) (tick : Decimal)
  | invalidPair (input : String)
  | pairAlreadyRegistered (pair : String)
  | cannotSuspendDelistedPair (pair : String)
  | traderAddressMismatch (expected found : String)
  | duplicateOrder
  | saltInvalid
  | orderNonceInvalid
  | orderExpiryInvalid
  | orderExpired
  | orderExpiryTooFar (maxSeconds : Nat)
  | invalidOrderProof
  | encryptedPayloadTooLarge (max : Nat)
  | tooManyRestingOrdersForTrader (max : Nat)
  | orderBookCapacityExceeded (max : Nat)
  deriving DecidableEq

inductive EngineError
  | validation (e : DarkPoolError)
  | decrypt
  | balanceLookup
  | event
  | recoverDecrypt (orderId : Uuid)
  | recoverCommitmentMismatch (orderId : Uuid)
  | recoverSaltInvalid (orderId : Uuid)
  | witnessSecretMissing (orderId : Uuid)
  | witnessOrderMissing (orderId : Uuid)
  | commitmentEncoding (e : EncodingError)
  | pairNotConfigured (pair : String)
  | recoveredBatchPublicInputsMissing (batchId : Uuid)
  | snapshotsCorruptAndLogTruncated
  deriving DecidableEq

/-- `map_err`: the `?` of the source converts the error of a step on its way out. -/
def mapErr {ε ε' α : Type} (f : ε → ε') : Except ε α → Except ε' α
  | .ok a => .ok a
  | .error e => .error (f e)

@[simp] theorem mapErr_eq_ok {ε ε' α : Type} {f : ε → ε'} {x : Except ε α} {a : α} :
    mapErr f x = .ok a ↔ x = .ok a := by
  cases x <;> simp [mapErr]

theorem bind_eq_ok {ε α β : Type} {x : Except ε α} {f : α → Except ε β} {b : β} :
    (x >>= f) = .ok b ↔ ∃ a, x = .ok a ∧ f a = .ok b := by
  cases x with
  | ok a => simp [bind, Except.bind]
  | error e => simp [bind, Except.bind]

/-- An early `return Err(..)` guard: what follows ran, so the guard did not fire. -/
theorem guard_eq_ok {ε α : Type} {c : Prop} [Decidable c] {e : ε} {x : Except ε α} {a : α} :
    (if c then .error e else x) = .ok a ↔ ¬ c ∧ x = .ok a := by
  split <;> simp_all

theorem mapM_forall₂ {ε α β : Type} {f : α → Except ε β} {xs : List α} {ys : List β} (h : xs.mapM f = .ok ys) :
    List.Forall₂ (fun x y => f x = .ok y) xs ys := by
  induction xs generalizing ys with
  | nil =>
    cases Except.ok.inj h
    exact .nil
  | cons x xs ih =>
    rw [List.mapM_cons] at h
    obtain ⟨y, hy, h⟩ := bind_eq_ok.mp h
    obtain ⟨ys', hys, h⟩ := bind_eq_ok.mp h
    cases Except.ok.inj h
    exact .cons hy (ih hys)

theorem exists_of_mem_right {α β : Type} {R : α → β → Prop} {xs : List α} {ys : List β} (h : List.Forall₂ R xs ys) {y : β}
    (hy : y ∈ ys) : ∃ x ∈ xs, R x y := by
  induction h with
  | nil => simp at hy
  | @cons x y' xs ys hxy hrest ih =>
    rcases List.mem_cons.mp hy with rfl | hy
    · exact ⟨x, List.mem_cons_self, hxy⟩
    · obtain ⟨z, hz, hzy⟩ := ih hy
      exact ⟨z, List.mem_cons_of_mem x hz, hzy⟩

theorem mapM_total {ε α β : Type} {f : α → Except ε β} {xs : List α} (h : ∀ x ∈ xs, ∃ y, f x = .ok y) :
    ∃ ys, xs.mapM f = .ok ys := by
  induction xs with
  | nil => exact ⟨[], rfl⟩
  | cons x xs ih =>
    obtain ⟨y, hy⟩ := h x List.mem_cons_self
    obtain ⟨ys, hys⟩ := ih (fun z hz => h z (List.mem_cons_of_mem x hz))
    exact ⟨y :: ys, by rw [List.mapM_cons, hy, hys]; rfl⟩

end DarkPool
