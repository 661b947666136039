import Mathlib.Order.Basic
import Mathlib.Order.Lattice

namespace Unbonding

/-- The collateral of one account: what is locked, how much of it is unbonding, and from when that may
leave. -/
structure Account where
  locked : Nat
  pending : Nat
  readyAt : Nat

/-- What unbonds is locked, and the timer runs exactly while something unbonds. -/
structure Account.Sound (x : Account) : Prop where
  covered : x.pending ≤ x.locked
  timed : x.readyAt = 0 ↔ x.pending = 0

namespace Account

variable {x : Account}

/-- Funds that are not unbonding are spent first. -/
def spend (x : Account) (n : Nat) : Account where
  locked := x.locked - n
  pending := min x.pending (x.locked - n)
  readyAt := if min x.pending (x.locked - n) = 0 then 0 else x.readyAt

theorem spend_zero (hx : x.Sound) : x.spend 0 = x := by
  have hmin : min x.pending x.locked = x.pending := min_eq_left hx.covered
  have htimer : (if x.pending = 0 then 0 else x.readyAt) = x.readyAt := by
    split
    next h => exact (hx.timed.mpr h).symm
    next => rfl
  simp only [spend, Nat.sub_zero, hmin, htimer]

/-- Spending in parts is spending the sum. -/
theorem spend_spend (x : Account) (m n : Nat) : (x.spend m).spend n = x.spend (m + n) := by
  have hmin : min (min x.pending (x.locked - m)) (x.locked - (m + n)) = min x.pending (x.locked - (m + n)) := by omega
  simp only [spend, Nat.sub_sub, hmin, Account.mk.injEq, true_and]
  split
  next => rfl
  next h => exact if_neg (by omega)

theorem spend_sound (hx : x.Sound) (n : Nat) : (x.spend n).Sound where
  covered := min_le_right _ _
  timed := by
    simp only [spend]
    split
    next h => simp [h]
    next h =>
      have hne : x.readyAt ≠ 0 := fun h0 => h (by simp [hx.timed.mp h0])
      simp [hne, h]

/-- What may leave before `limit`. -/
def matured (limit : Nat) (x : Account) : Nat := if x.readyAt < limit then x.pending else 0

theorem matured_le_pending (limit : Nat) (x : Account) : x.matured limit ≤ x.pending := by
  unfold matured
  split <;> omega

theorem matured_spend_le (limit : Nat) (x : Account) (n : Nat) : (x.spend n).matured limit ≤ x.matured limit := by
  have hle : (x.spend n).pending ≤ x.pending := min_le_left _ _
  by_cases h : (x.spend n).pending = 0
  · exact (matured_le_pending limit _).trans (h.trans_le (Nat.zero_le _))
  · have htimer : (x.spend n).readyAt = x.readyAt := if_neg h
    unfold matured
    rw [htimer]
    split <;> omega

end Account

/-- One operation at time `now`, with what it releases and what it spends; `own` says that the account
asks for it itself. -/
inductive Step (delay now : Nat) (own : Prop) : Account → Account → Nat → Nat → Prop
  | lock (x : Account) (n : Nat) : Step delay now own x { x with locked := x.locked + n } 0 0
  | request (x : Account) (n : Nat) (asked : own) (pos : 0 < n) (le : x.pending + n ≤ x.locked) :
      Step delay now own x ⟨x.locked, x.pending + n, now + delay⟩ 0 0
  | release (x : Account) (asked : own) (ready : x.readyAt ≤ now) (le : x.pending ≤ x.locked) :
      Step delay now own x ⟨x.locked - x.pending, 0, 0⟩ x.pending 0
  | spend (x : Account) (n : Nat) (le : n ≤ x.locked) : Step delay now own x (x.spend n) 0 n

namespace Step

variable {delay now released spent : Nat} {own : Prop} {x y : Account}

theorem idle (x : Account) : Step delay now own x x 0 0 := .lock x 0

theorem sound (hdelay : 0 < delay) (hx : x.Sound) (h : Step delay now own x y released spent) : y.Sound := by
  cases h with
  | lock n => exact ⟨hx.covered.trans (Nat.le_add_right _ _), hx.timed⟩
  | request n asked pos le => exact ⟨le, by dsimp only; omega⟩
  | release asked ready le => exact ⟨Nat.zero_le _, Iff.rfl⟩
  | spend _ le => exact Account.spend_sound hx spent

/-- Nobody else makes an account's collateral unbond. -/
theorem pending_le (hown : ¬ own) (h : Step delay now own x y released spent) : y.pending ≤ x.pending := by
  cases h with
  | lock n => exact le_rfl
  | request n asked pos le => exact absurd asked hown
  | release asked ready le => exact absurd asked hown
  | spend _ le => exact min_le_left _ _

/-- Locked funds leave by a release or by being spent. -/
theorem locked_le (h : Step delay now own x y released spent) : x.locked ≤ y.locked + released + spent := by
  cases h with
  | lock n => exact Nat.le_add_right _ _
  | request n asked pos le => exact le_rfl
  | release asked ready le => dsimp only; omega
  | spend _ le => simp only [Account.spend]; omega

/-- What is asked for from now on matures no earlier than `limit`. -/
theorem released_le {limit : Nat} (hlate : limit ≤ now + delay) (hearly : now < limit)
    (h : Step delay now own x y released spent) : released + y.matured limit ≤ x.matured limit := by
  cases h with
  | lock n => exact (Nat.zero_add _).le
  | request n asked pos le =>
    have hnone : (Account.mk x.locked (x.pending + n) (now + delay)).matured limit = 0 := if_neg (by dsimp only; omega)
    omega
  | release asked ready le =>
    have hall : x.matured limit = x.pending := if_pos (by omega)
    have hnone : (Account.mk (x.locked - x.pending) 0 0).matured limit = 0 := by simp [Account.matured]
    omega
  | spend _ le => exact (Nat.zero_add _).trans_le (Account.matured_spend_le limit x spent)

end Step

/-- Operations at times in `[start, limit)`, with what they release and spend together. -/
inductive Window (delay start limit : Nat) : Account → Account → Nat → Nat → Prop
  | refl (x : Account) : Window delay start limit x x 0 0
  | step {x y z : Account} {now r s r' s' : Nat} {own : Prop} (late : start ≤ now) (early : now < limit)
      (head : Step delay now own x y r s) (tail : Window delay start limit y z r' s') :
      Window delay start limit x z (r + r') (s + s')

namespace Window

variable {delay start limit released spent : Nat} {x y : Account}

theorem locked_le (h : Window delay start limit x y released spent) : x.locked ≤ y.locked + released + spent := by
  induction h with
  | refl x => exact le_rfl
  | step late early head tail ih =>
    have hhead := head.locked_le
    omega

/-- A window no longer than the delay releases only what had matured, or was going to, when it began. -/
theorem released_le (hlimit : limit ≤ start + delay) (h : Window delay start limit x y released spent) :
    released + y.matured limit ≤ x.matured limit := by
  induction h with
  | refl x => exact (Nat.zero_add _).le
  | step late early head tail ih =>
    have hhead := head.released_le (by omega) early
    omega

end Window

end Unbonding
