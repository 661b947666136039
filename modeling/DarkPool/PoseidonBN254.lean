import DarkPool.Lib.Sponge
import DarkPool.SessionPolicy

namespace DarkPool

/-- The constants that both sides derive, as words. -/
structure PoseidonConstants where
  ark : Nat → SpongeState Nat
  mds : SpongeState (SpongeState Nat)

/-- `poseidon_config` with these constants. -/
def poseidonConfig (k : PoseidonConstants) : PoseidonParams Fr where
  fullRounds := 8
  partialRounds := 57
  alpha := 5
  ark r := (k.ark r).map Nat.cast
  mds := k.mds.map (SpongeState.map Nat.cast)

namespace PoseidonBN254

def fullRounds : Nat := 8
def partialRounds : Nat := 57
def totalRounds : Nat := fullRounds + partialRounds
def halfFull : Nat := fullRounds / 2

def addmod (x y : Nat) : Nat := (x + y) % scalarModulus
def mulmod (x y : Nat) : Nat := (x * y) % scalarModulus

def sbox (x : Nat) : Nat :=
  let x2 := mulmod x x
  let x4 := mulmod x2 x2
  mulmod x4 x

/-- The body of the loop of `_permute`. -/
def permuteRound (k : PoseidonConstants) (s : SpongeState Nat) (r : Nat) : SpongeState Nat :=
  let s0 := addmod s.capacity (k.ark r).capacity
  let s1 := addmod s.rate0 (k.ark r).rate0
  let s2 := addmod s.rate1 (k.ark r).rate1
  let t : SpongeState Nat :=
    if r < halfFull ∨ totalRounds - halfFull ≤ r then ⟨sbox s0, sbox s1, sbox s2⟩ else ⟨sbox s0, s1, s2⟩
  k.mds.map (fun row =>
    addmod (addmod (mulmod row.capacity t.capacity) (mulmod row.rate0 t.rate0)) (mulmod row.rate1 t.rate1))

def permute (k : PoseidonConstants) (s : SpongeState Nat) : SpongeState Nat :=
  (List.range totalRounds).foldl (permuteRound k) s

def poseidon5 (k : PoseidonConstants) (a b c d e : Nat) : Nat :=
  let s := permute k ⟨0, addmod 0 a, addmod 0 b⟩
  let s := permute k { s with rate0 := addmod s.rate0 c, rate1 := addmod s.rate1 d }
  let s := permute k { s with rate0 := addmod s.rate0 e }
  s.rate0

section Simulation

variable (k : PoseidonConstants)

@[simp]
theorem cast_addmod (x y : Nat) : ((addmod x y : Nat) : Fr) = x + y := by
  rw [addmod, ZMod.natCast_mod, Nat.cast_add]

@[simp]
theorem cast_mulmod (x y : Nat) : ((mulmod x y : Nat) : Fr) = x * y := by
  rw [mulmod, ZMod.natCast_mod, Nat.cast_mul]

@[simp]
theorem cast_sbox (x : Nat) : ((sbox x : Nat) : Fr) = (x : Fr) ^ 5 := by
  simp only [sbox, cast_mulmod]
  ring

/-- A round on words is a round of the field. -/
theorem cast_permuteRound (s : SpongeState Nat) (r : Nat) :
    (permuteRound k s r).map (Nat.cast : Nat → Fr) =
      (poseidonConfig k).round (decide (r < 4 ∨ 61 ≤ r)) (s.map Nat.cast) r := by
  have hcond : (r < halfFull ∨ totalRounds - halfFull ≤ r) ↔ (r < 4 ∨ 61 ≤ r) := Iff.rfl
  by_cases hfull : r < 4 ∨ 61 ≤ r
  · rw [permuteRound, if_pos (hcond.mpr hfull), decide_eq_true hfull]
    simp [PoseidonParams.round, PoseidonParams.applyMds, PoseidonParams.applySBox, PoseidonParams.applyArk,
      poseidonConfig, mul_comm]
  · rw [permuteRound, if_neg (fun h => hfull (hcond.mp h)), decide_eq_false hfull]
    simp [PoseidonParams.round, PoseidonParams.applyMds, PoseidonParams.applySBox, PoseidonParams.applyArk,
      poseidonConfig, mul_comm]

/-- The permutation on words is the permutation of the field. -/
theorem cast_permute (s : SpongeState Nat) :
    (permute k s).map (Nat.cast : Nat → Fr) = (poseidonConfig k).permute (s.map Nat.cast) := by
  have hloop := PoseidonParams.permute_eq_foldl (poseidonConfig k) (rfl : 8 / 2 = 4) (rfl : 4 + 57 = 61) (s.map Nat.cast)
  have hfold : ∀ rs : List Nat, rs.foldl (fun t r => (poseidonConfig k).round (decide (r < 4 ∨ 61 ≤ r)) t r)
      (s.map Nat.cast) = (rs.foldl (permuteRound k) s).map Nat.cast := by
    intro rs
    apply List.foldl_hom
    intro t r
    exact (cast_permuteRound k t r).symm
  rw [hloop, hfold]
  rfl

theorem permuteRound_lt (s : SpongeState Nat) (r : Nat) : (permuteRound k s r).rate0 < scalarModulus := by
  have hpos : 0 < scalarModulus := by decide
  exact Nat.mod_lt _ hpos

theorem permute_lt (s : SpongeState Nat) : (permute k s).rate0 < scalarModulus := by
  have hlast : List.range totalRounds = List.range 64 ++ [64] := List.range_succ
  rw [permute, hlast, List.foldl_append]
  exact permuteRound_lt k _ 64

/-- The unrolled sponge of the contract is the sponge of the prover. -/
theorem cast_poseidon5 (a b c d e : Nat) :
    ((poseidon5 k a b c d e : Nat) : Fr) = (poseidonConfig k).hash [(a : Fr), b, c, d, e] := by
  have hpermute : ∀ s0 s1 s2 : Nat, (poseidonConfig k).permute ⟨(s0 : Fr), s1, s2⟩ =
      (permute k ⟨s0, s1, s2⟩).map Nat.cast := fun s0 s1 s2 => (cast_permute k ⟨s0, s1, s2⟩).symm
  have hfirst : (poseidonConfig k).permute ⟨0, 0 + (a : Fr), 0 + (b : Fr)⟩ =
      (permute k ⟨0, addmod 0 a, addmod 0 b⟩).map Nat.cast := by
    rw [← hpermute, cast_addmod, cast_addmod, Nat.cast_zero]
  rw [PoseidonParams.hash_five, poseidon5, hfirst]
  simp only [SpongeState.map, ← cast_addmod, hpermute]

theorem poseidon5_val (a b c d e : Fr) :
    poseidon5 k a.val b.val c.val d.val e.val = ((poseidonConfig k).hash [a, b, c, d, e]).val := by
  have hcast := cast_poseidon5 k a.val b.val c.val d.val e.val
  simp only [ZMod.natCast_zmod_val] at hcast
  rw [← hcast]
  exact (ZMod.val_natCast_of_lt (permute_lt k _)).symm

end Simulation

end PoseidonBN254

section Chains

open PoseidonBN254

variable {k : PoseidonConstants} {env : Env} {d : Deployment}

theorem mirrors_of_constants (henv : env.poseidon = (poseidonConfig k).hash) (hd : d.poseidon5 = poseidon5 k)
    {domain : Fr} (hdomain : d.settlementDomain = domain.val) : d.Mirrors env domain where
  domain := hdomain
  poseidon acc bid ask price size := by rw [hd, henv, poseidon5_val]

/-- The circuit, the prover's helper and the contract agree on the settlement chain of a session, whatever
padding is between its active rows. -/
theorem settlement_chains_agree (henv : env.poseidon = (poseidonConfig k).hash) (hd : d.poseidon5 = poseidon5 k)
    (rounds : List AuctionExternalInputs) (hactive : ∀ ext ∈ rounds, ∀ r ∈ ext.rows, r.isActive = 0 ∨ r.isActive = 1)
    (z : Vector Fr 5) :
    (sessionState env z rounds).get zSettlement =
      settlementChainNative env (z.get zSettlement) ((sessionRows rounds).map CircuitMatchNative.settlementRow) ∧
    (d.settlementDomain = (z.get zSettlement).val → ∀ sms : List SettlementMatch,
      List.Forall₂ (fun sm r => settlementRow sm = .ok r.settlementRow) sms (sessionRows rounds) →
      ∃ ms, sms.mapM settlementMatchToSol = .ok ms ∧
        settlementChain d d.settlementDomain ms = .ok ((sessionState env z rounds).get zSettlement).val) := by
  have hstate : (sessionState env z rounds).get zSettlement = _ := sessionState_settlement hactive z
  refine ⟨hstate, ?_⟩
  intro hdomain sms hsms
  have hrows : List.Forall₂ (fun sm r => settlementRow sm = .ok r) sms
      ((sessionRows rounds).map CircuitMatchNative.settlementRow) := List.forall₂_map_right_iff.mpr hsms
  obtain ⟨ms, hms, hchain⟩ := settlementChain_of_rows (mirrors_of_constants henv hd hdomain) hrows (z.get zSettlement)
  rw [← hdomain, ← hstate] at hchain
  exact ⟨ms, hms, hchain⟩

end Chains

namespace Onchain

def zeroConstants : PoseidonConstants := ⟨fun _ => ⟨0, 0, 0⟩, ⟨⟨1, 1, 2⟩, ⟨1, 2, 3⟩, ⟨2, 3, 5⟩⟩⟩

def spongeEnv : Env := { Fills.plainEnv with poseidon := (poseidonConfig zeroConstants).hash }

def spongeDeployment : Deployment := { mirrored with poseidon5 := PoseidonBN254.poseidon5 zeroConstants }

def unitFill : SettlementMatch := ⟨1, 2, 1, 2, 3, 9, 1 / 10 ^ 8, 1 / 10 ^ 8⟩

end Onchain

open Onchain Fills in
/-- Two rounds, each of a fill between padding rows. -/
theorem settlement_chains_agree_padded :
    ∃ ms, [unitFill, unitFill].mapM settlementMatchToSol = .ok ms ∧
      settlementChain spongeDeployment spongeDeployment.settlementDomain ms =
        .ok ((sessionState spongeEnv #v[0, 0, 0, 7, 0] [single 1, single 1]).get zSettlement).val := by
  have hrows : sessionRows [single 1, single 1] = [Fills.row plainEnv 0 1, Fills.row plainEnv 0 1] := by
    simp [sessionRows, AuctionExternalInputs.activeRows, single, batch, Fills.row, CircuitMatchNative.default]
  have hactive : ∀ ext ∈ [single 1, single 1], ∀ r ∈ ext.rows, r.isActive = 0 ∨ r.isActive = 1 := by
    decide
  have hfill : settlementRow unitFill = .ok (Fills.row plainEnv 0 1).settlementRow := by decide +kernel
  refine (settlement_chains_agree rfl rfl [single 1, single 1] hactive #v[0, 0, 0, 7, 0]).2 ?_ [unitFill, unitFill] ?_
  · decide
  · rw [hrows]
    exact .cons hfill (.cons hfill .nil)

end DarkPool
