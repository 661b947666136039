import Mathlib.Data.List.Basic
import Mathlib.Algebra.Ring.Defs

/-- A sponge state of width three, with the capacity element first. -/
structure SpongeState (F : Type*) where
  capacity : F
  rate0 : F
  rate1 : F
  deriving DecidableEq

namespace SpongeState

variable {F G : Type*}

@[simp]
def map (f : F → G) (s : SpongeState F) : SpongeState G := ⟨f s.capacity, f s.rate0, f s.rate1⟩

end SpongeState

/-- The parameters of a Poseidon permutation of width three. -/
structure PoseidonParams (F : Type*) where
  fullRounds : Nat
  partialRounds : Nat
  alpha : Nat
  ark : Nat → SpongeState F
  mds : SpongeState (SpongeState F)

namespace PoseidonParams

variable {F : Type*} [CommSemiring F] (p : PoseidonParams F)

def applyArk (s : SpongeState F) (i : Nat) : SpongeState F :=
  ⟨s.capacity + (p.ark i).capacity, s.rate0 + (p.ark i).rate0, s.rate1 + (p.ark i).rate1⟩

/-- A partial round has one S-box, on the capacity element. -/
def applySBox (isFullRound : Bool) (s : SpongeState F) : SpongeState F :=
  if isFullRound then s.map (· ^ p.alpha) else { s with capacity := s.capacity ^ p.alpha }

def applyMds (s : SpongeState F) : SpongeState F :=
  p.mds.map (fun row => s.capacity * row.capacity + s.rate0 * row.rate0 + s.rate1 * row.rate1)

def round (isFullRound : Bool) (s : SpongeState F) (i : Nat) : SpongeState F :=
  p.applyMds (p.applySBox isFullRound (p.applyArk s i))

/-- Half of the full rounds, the partial rounds, and the other half. -/
def permute (s : SpongeState F) : SpongeState F :=
  let half := p.fullRounds / 2
  let s := (List.range' 0 half).foldl (p.round true) s
  let s := (List.range' half p.partialRounds).foldl (p.round false) s
  (List.range' (half + p.partialRounds) half).foldl (p.round true) s

/-- Elements are added into the rate, two at a time, with a permutation between the blocks. -/
def absorb (s : SpongeState F) : List F → SpongeState F
  | [] => s
  | [a] => { s with rate0 := s.rate0 + a }
  | [a, b] => { s with rate0 := s.rate0 + a, rate1 := s.rate1 + b }
  | a :: b :: rest => absorb (p.permute { s with rate0 := s.rate0 + a, rate1 := s.rate1 + b }) rest

def squeeze (s : SpongeState F) : F := (p.permute s).rate0

/-- A fresh sponge absorbs the elements and gives one back. -/
def hash (xs : List F) : F := p.squeeze (p.absorb ⟨0, 0, 0⟩ xs)

/-- The three phases are one loop over the rounds, whose first and last rounds are the full ones. -/
theorem permute_eq_foldl {half last : Nat} (hhalf : p.fullRounds / 2 = half) (hlast : half + p.partialRounds = last)
    (s : SpongeState F) :
    p.permute s = (List.range (last + half)).foldl (fun s r => p.round (decide (r < half ∨ last ≤ r)) s r) s := by
  have hsplit : List.range (last + half) =
      List.range' 0 half ++ List.range' half p.partialRounds ++ List.range' last half := by
    have hfirst := List.range'_append_1 (s := 0) (m := half) (n := p.partialRounds)
    have hrest := List.range'_append_1 (s := 0) (m := last) (n := half)
    rw [Nat.zero_add] at hfirst hrest
    rw [hfirst, hlast, hrest, List.range_eq_range']
  have hphase : ∀ (full : Bool) (first n : Nat),
      (∀ r, first ≤ r → r < first + n → decide (r < half ∨ last ≤ r) = full) → ∀ s,
      (List.range' first n).foldl (p.round full) s =
        (List.range' first n).foldl (fun s r => p.round (decide (r < half ∨ last ≤ r)) s r) s := by
    intro full first n hfull s
    refine List.foldl_ext _ _ _ (fun s r hr => ?_)
    have hbounds := List.mem_range'_1.mp hr
    rw [hfull r hbounds.1 hbounds.2]
  rw [hsplit, List.foldl_append, List.foldl_append, permute, hhalf, hlast]
  rw [hphase true 0 half (fun r _ _ => decide_eq_true (by omega)),
    hphase false half p.partialRounds (fun r _ _ => decide_eq_false (by omega)),
    hphase true last half (fun r _ _ => decide_eq_true (by omega))]

/-- Five elements are three blocks. -/
theorem hash_five (a b c d e : F) :
    p.hash [a, b, c, d, e] =
      let s := p.permute ⟨0, 0 + a, 0 + b⟩
      let s := p.permute { s with rate0 := s.rate0 + c, rate1 := s.rate1 + d }
      (p.permute { s with rate0 := s.rate0 + e }).rate0 := by
  simp only [hash, absorb, squeeze]

end PoseidonParams
