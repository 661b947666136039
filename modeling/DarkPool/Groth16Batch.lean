import DarkPool.Groth16
import DarkPool.Solvency
import DarkPool.ScalarField

namespace DarkPool

structure Groth16Proof where
  a : G1Words
  b : G2Words
  c : G1Words
  input : Vector Nat 6

namespace PairingCurve

variable {G₁ G₂ GT : Type} [AddCommGroup G₁] [AddCommGroup G₂] [CommGroup GT] (C : PairingCurve G₁ G₂ GT)

/-- All points of the key are on their curves. -/
structure KeyWellFormed (vk : VerifyingKey) : Prop where
  alpha : (C.decode vk.alpha1).isSome
  beta : (C.decodeTwo vk.beta2).isSome
  gamma : (C.decodeTwo vk.gamma2).isSome
  delta : (C.decodeTwo vk.delta2).isSome
  ic : ∀ j, (C.decode (vk.ic.get j)).isSome

structure WellFormed (pf : Groth16Proof) : Prop where
  a : (C.decode pf.a).isSome
  b : (C.decodeTwo pf.b).isSome
  c : (C.decode pf.c).isSome
  input : ∀ x ∈ pf.input.toList, x < scalarModulus

def point (w : G1Words) : G₁ := (C.decode w).getD 0

def pointTwo (w : G2Words) : G₂ := (C.decodeTwo w).getD 0

variable (vk : VerifyingKey)

/-- The combination of the key's points that the public inputs select. -/
def publicPoint (input : Vector Nat 6) : G₁ :=
  C.point (vk.ic.get firstIc) + ((List.finRange 6).map (fun j => input.get j • C.point (vk.ic.get j.succ))).sum

/-- What the equation of a single proof asks to be 1. -/
def residual (pf : Groth16Proof) : GT :=
  Bilinear.pair C.e (-(C.point pf.a)) (C.pointTwo pf.b) * Bilinear.pair C.e (C.point vk.alpha1) (C.pointTwo vk.beta2) *
    Bilinear.pair C.e (C.publicPoint vk pf.input) (C.pointTwo vk.gamma2) *
    Bilinear.pair C.e (C.point pf.c) (C.pointTwo vk.delta2)

/-- The residuals taken together, that of proof `i` with the power `r ^ i` of the challenge. -/
def batchResidual (ps : List Groth16Proof) (r : Nat) : GT :=
  (ps.zipIdx.map (fun x => C.residual vk x.1 ^ r ^ x.2)).prod

variable {C vk}

theorem encode_point {w : G1Words} (h : (C.decode w).isSome) : w = C.encode (C.point w) := by
  obtain ⟨P, hP⟩ := Option.isSome_iff_exists.mp h
  rw [point, hP, Option.getD_some]
  exact (C.decode_eq_some w P).mp hP

theorem decodeTwo_eq {w : G2Words} (h : (C.decodeTwo w).isSome) : C.decodeTwo w = some (C.pointTwo w) := by
  obtain ⟨Q, hQ⟩ := Option.isSome_iff_exists.mp h
  rw [pointTwo, hQ, Option.getD_some]

variable (C) in
@[simp] theorem decode_encode (P : G₁) : C.decode (C.encode P) = some P := (C.decode_eq_some _ P).mpr rfl

variable (C) in
@[simp] theorem point_encode (P : G₁) : C.point (C.encode P) = P := by
  rw [point, decode_encode, Option.getD_some]

variable (C) in
@[simp] theorem ecAdd_encode (P Q : G₁) : C.ecAdd (C.encode P) (C.encode Q) = .ok (C.encode (P + Q)) := by
  simp [ecAdd]

variable (C) in
@[simp] theorem ecMul_encode (P : G₁) (s : Nat) : C.ecMul (C.encode P) s = .ok (C.encode (s • P)) := by
  simp [ecMul]

variable (C) in
@[simp] theorem negate_encode (P : G₁) : negate (C.encode P) = .ok (C.encode (-P)) := by
  by_cases hP : P = 0
  · rw [hP, neg_zero, C.encode_zero]
    rfl
  · obtain ⟨hle, hneg⟩ := C.encode_neg P hP
    have hwords : ¬((C.encode P).1 = 0 ∧ (C.encode P).2 = 0) := by
      rintro ⟨hx, hy⟩
      have hzero : C.decode (0, 0) = some P := (C.decode_eq_some _ P).mpr (Prod.ext hx.symm hy.symm)
      rw [← C.encode_zero, decode_encode] at hzero
      exact hP (Option.some.inj hzero).symm
    rw [negate, if_neg hwords, checkedSub, if_pos hle, hneg]
    rfl

theorem publicInputAccumulator_eq (hvk : C.KeyWellFormed vk) (input : Vector Nat 6) :
    C.publicInputAccumulator vk input = .ok (C.encode (C.publicPoint vk input)) := by
  have hloop : ∀ (js : List (Fin 6)) (P : G₁), js.foldlM
      (fun li j => do
        let p ← C.ecMul (vk.ic.get j.succ) (input.get j)
        C.ecAdd li p) (C.encode P) =
      Except.ok (C.encode (P + (js.map (fun j => input.get j • C.point (vk.ic.get j.succ))).sum)) := by
    intro js
    induction js with
    | nil => simp [pure, Except.pure]
    | cons j js ih =>
      intro P
      rw [List.foldlM_cons, encode_point (hvk.ic j.succ), ecMul_encode]
      simp only [bind, Except.bind, ecAdd_encode] at ih ⊢
      rw [ih, List.map_cons, List.sum_cons, add_assoc]
  rw [publicInputAccumulator, encode_point (hvk.ic firstIc)]
  exact hloop _ _

/-- The scalar that the loops hold in the round `k`. -/
def weight (r0 k : Nat) : Nat := r0 ^ k % scalarModulus

theorem nextPower_succ {r0 i ri : Nat} (h : nextPower r0 i ri = weight r0 i) :
    nextPower r0 (i + 1) (nextPower r0 i ri) = weight r0 (i + 1) := by
  rw [h, nextPower, if_pos i.succ_pos, weight, weight, Nat.mod_mul_mod, pow_succ]

theorem accumulateRL_eq (hvk : C.KeyWellFormed vk) (r0 : Nat) (ps : List Groth16Proof) {i ri rSum : Nat} {P : G₁}
    (hri : nextPower r0 i ri = weight r0 i) (hsum : rSum < scalarModulus) :
    C.accumulateRL vk r0 i ri rSum (C.encode P) (ps.map Groth16Proof.input) =
      .ok ((rSum + ((ps.zipIdx i).map (fun x => weight r0 x.2)).sum) % scalarModulus,
        C.encode (P + ((ps.zipIdx i).map (fun x => weight r0 x.2 • C.publicPoint vk x.1.input)).sum)) := by
  induction ps generalizing i ri rSum P with
  | nil => simp [accumulateRL, Nat.mod_eq_of_lt hsum]
  | cons pf ps ih =>
    have hmod : (rSum + weight r0 i) % scalarModulus < scalarModulus := Nat.mod_lt _ prime_scalarModulus.pos
    have hnext := nextPower_succ hri
    rw [hri] at hnext
    simp only [List.map_cons, accumulateRL, publicInputAccumulator_eq hvk, hri, bind, Except.bind, ecMul_encode,
      ecAdd_encode, ih hnext hmod, List.zipIdx_cons, List.sum_cons, Nat.mod_add_mod, add_assoc]

theorem proofTerms_eq (r0 : Nat) (ps : List Groth16Proof) (hps : ∀ pf ∈ ps, C.WellFormed pf) {i ri : Nat} {P : G₁}
    (hri : nextPower r0 i ri = weight r0 i) :
    C.proofTerms r0 i ri (C.encode P) (ps.map Groth16Proof.a) (ps.map Groth16Proof.b) (ps.map Groth16Proof.c) =
      .ok ((ps.zipIdx i).flatMap (fun x => pairingTerm (C.encode (weight r0 x.2 • -(C.point x.1.a))) x.1.b),
        C.encode (P + ((ps.zipIdx i).map (fun x => weight r0 x.2 • C.point x.1.c)).sum)) := by
  induction ps generalizing i ri P with
  | nil => simp [proofTerms]
  | cons pf ps ih =>
    obtain ⟨hpf, hps⟩ := List.forall_mem_cons.mp hps
    have hnext := nextPower_succ hri
    rw [hri] at hnext
    have ha := encode_point hpf.a
    have hc := encode_point hpf.c
    simp only [List.map_cons, proofTerms, hri, List.zipIdx_cons, List.flatMap_cons, List.sum_cons]
    rw [ha, hc, negate_encode]
    simp only [bind, Except.bind, pure, Except.pure, ecMul_encode, ecAdd_encode, ih hps hnext, point_encode, add_assoc]

theorem pairingProduct_term (P : G₁) {q : G2Words} (hq : (C.decodeTwo q).isSome) (words : List Nat) :
    C.pairingProduct (pairingTerm (C.encode P) q ++ words) =
      (C.pairingProduct words).map (fun x => Bilinear.pair C.e P (C.pointTwo q) * x) := by
  simp only [pairingProduct, pairingTerm, List.cons_append, List.nil_append, parseTerms, Prod.mk.eta, decode_encode,
    decodeTwo_eq hq]
  cases C.parseTerms words <;> simp

theorem pairingProduct_terms {I : Type} (p : I → G₁) (q : I → G2Words) (is : List I)
    (hq : ∀ i ∈ is, (C.decodeTwo (q i)).isSome) (words : List Nat) :
    C.pairingProduct (is.flatMap (fun i => pairingTerm (C.encode (p i)) (q i)) ++ words) =
      (C.pairingProduct words).map (fun x => (is.map (fun i => Bilinear.pair C.e (p i) (C.pointTwo (q i)))).prod * x) := by
  induction is with
  | nil => simp
  | cons i is ih =>
    obtain ⟨hi, his⟩ := List.forall_mem_cons.mp hq
    rw [List.flatMap_cons, List.append_assoc, pairingProduct_term _ hi, ih his, Option.map_map]
    simp [Function.comp_def, mul_assoc]

theorem pairingProduct_nil : C.pairingProduct [] = some 1 := rfl

include C in
theorem nsmul_mod (n : Nat) (P : G₁) : (n % scalarModulus) • P = n • P := by
  rw [← C.card_one, Bilinear.mod_card_nsmul]

include C in
theorem pow_mod (n : Nat) (x : GT) : x ^ (n % scalarModulus) = x ^ n := by
  rw [← C.card_target, Bilinear.pow_mod_card]

/-- The input of the batch's pairing, and its product. -/
theorem batchPairingInput_product (hvk : C.KeyWellFormed vk) (r0 : Nat) {ps : List Groth16Proof}
    (hps : ∀ pf ∈ ps, C.WellFormed pf) :
    ∃ pIn, C.batchPairingInput vk (ps.map Groth16Proof.a) (ps.map Groth16Proof.b) (ps.map Groth16Proof.c)
        (ps.map Groth16Proof.input) r0 = .ok pIn ∧
      C.pairingProduct pIn = some (C.batchResidual vk ps r0) := by
  have hstart : nextPower r0 0 1 = weight r0 0 := by
    rw [nextPower, if_neg (lt_irrefl 0), weight, pow_zero, Nat.mod_eq_of_lt prime_scalarModulus.one_lt]
  have hrl := accumulateRL_eq (P := 0) hvk r0 ps hstart prime_scalarModulus.pos
  have hterms := proofTerms_eq (P := 0) r0 ps hps hstart
  rw [C.encode_zero, zero_add] at hrl hterms
  have halpha := encode_point hvk.alpha
  unfold batchPairingInput buildBatchPairingInput
  rw [hrl, hterms, halpha]
  simp only [bind, Except.bind, pure, Except.pure, ecMul_encode]
  refine ⟨_, rfl, ?_⟩
  have hb : ∀ x ∈ ps.zipIdx, (C.decodeTwo x.1.b).isSome := fun x hx => (hps _ (List.fst_mem_of_mem_zipIdx hx)).b
  rw [List.append_assoc, List.append_assoc, pairingProduct_terms _ _ _ hb, pairingProduct_term _ hvk.beta,
    pairingProduct_term _ hvk.gamma, ← List.append_nil (pairingTerm _ vk.delta2), pairingProduct_term _ hvk.delta,
    pairingProduct_nil, zero_add, nsmul_mod (C := C)]
  simp only [Option.map_some, mul_one, ← mul_assoc]
  rw [Bilinear.weighted_product]
  simp only [batchResidual, residual, weight, pow_mod (C := C)]

theorem batchResidual_eq_one {ps : List Groth16Proof} (h : ∀ pf ∈ ps, C.residual vk pf = 1) (r0 : Nat) :
    C.batchResidual vk ps r0 = 1 := by
  refine List.prod_eq_one (fun x hx => ?_)
  obtain ⟨y, hy, rfl⟩ := List.mem_map.mp hx
  rw [h _ (List.fst_mem_of_mem_zipIdx hy), one_pow]

variable [DecidableEq GT]

theorem ecPairing_eq {words : List Nat} {x : GT} (h : C.pairingProduct words = some x) :
    (do let result ← C.ecPairing words; return result == 1) = Except.ok (decide (x = 1)) := by
  rw [ecPairing, h]
  by_cases hx : x = 1 <;> simp [hx, bind, Except.bind, pure, Except.pure]

theorem verifyProof_eq (hvk : C.KeyWellFormed vk) {pf : Groth16Proof} (hpf : C.WellFormed pf) :
    C.verifyProof vk pf.a pf.b pf.c pf.input = .ok (decide (C.residual vk pf = 1)) := by
  have hrange : checkInputsRange [pf.input] = .ok () := require_eq_ok.mpr (by simpa using hpf.input)
  have hproduct : C.pairingProduct (pairingTerm (C.encode (-(C.point pf.a))) pf.b ++
      pairingTerm vk.alpha1 vk.beta2 ++ pairingTerm (C.encode (C.publicPoint vk pf.input)) vk.gamma2 ++
      pairingTerm pf.c vk.delta2) = some (C.residual vk pf) := by
    have halpha := encode_point hvk.alpha
    have hc := encode_point hpf.c
    rw [residual, List.append_assoc, List.append_assoc, pairingProduct_term _ hpf.b]
    nth_rewrite 1 [halpha]
    nth_rewrite 1 [hc]
    rw [pairingProduct_term _ hvk.beta, pairingProduct_term _ hvk.gamma,
      ← List.append_nil (pairingTerm _ vk.delta2), pairingProduct_term _ hvk.delta, pairingProduct_nil]
    simp only [Option.map_some, mul_one, mul_assoc]
  have ha := encode_point hpf.a
  rw [verifyProof, hrange, publicInputAccumulator_eq hvk]
  nth_rewrite 1 [ha]
  rw [negate_encode]
  exact ecPairing_eq hproduct

theorem verifyProofBatch_eq (hvk : C.KeyWellFormed vk) {ps : List Groth16Proof} (hps : ∀ pf ∈ ps, C.WellFormed pf)
    (hpos : 0 < ps.length) (hmax : ps.length ≤ maxBatch) {t : Transcript} {gas r0 : Nat}
    (hr0 : t.challenge gas (t.hash (ps.map Groth16Proof.a) (ps.map Groth16Proof.b) (ps.map Groth16Proof.c)
      (ps.map Groth16Proof.input) % scalarModulus) = .ok r0) :
    C.verifyProofBatch vk t gas (ps.map Groth16Proof.a) (ps.map Groth16Proof.b) (ps.map Groth16Proof.c)
      (ps.map Groth16Proof.input) = .ok (decide (C.batchResidual vk ps r0 = 1)) := by
  have hrange : checkInputsRange (ps.map Groth16Proof.input) = .ok () := by
    refine require_eq_ok.mpr (fun input hinput => ?_)
    obtain ⟨pf, hpf, rfl⟩ := List.mem_map.mp hinput
    exact (hps pf hpf).input
  obtain ⟨pIn, hpIn, hproduct⟩ := batchPairingInput_product hvk r0 hps
  simp only [verifyProofBatch, List.length_map, and_self, hrange, hr0]
  rw [require, if_pos hpos, require, if_pos hmax, require, if_pos trivial]
  simp only [bind, Except.bind, hpIn]
  exact ecPairing_eq hproduct

/-- For every challenge the pairing product of a batch is the product of the residuals of its proofs with
the powers of the challenge. A single proof is accepted when its residual is 1, a batch when the product is,
so that a batch of accepted proofs is accepted. -/
theorem verifyProofBatch_residuals (hvk : C.KeyWellFormed vk) {ps : List Groth16Proof}
    (hps : ∀ pf ∈ ps, C.WellFormed pf) (hpos : 0 < ps.length) (hmax : ps.length ≤ maxBatch) :
    (∀ pf ∈ ps, C.verifyProof vk pf.a pf.b pf.c pf.input = .ok (decide (C.residual vk pf = 1))) ∧
    (∀ r0, ∃ pIn, C.batchPairingInput vk (ps.map Groth16Proof.a) (ps.map Groth16Proof.b) (ps.map Groth16Proof.c)
        (ps.map Groth16Proof.input) r0 = .ok pIn ∧
      C.pairingProduct pIn = some (ps.zipIdx.map (fun x => C.residual vk x.1 ^ r0 ^ x.2)).prod) ∧
    ∀ (t : Transcript) (gas r0 : Nat),
      t.challenge gas (t.hash (ps.map Groth16Proof.a) (ps.map Groth16Proof.b) (ps.map Groth16Proof.c)
        (ps.map Groth16Proof.input) % scalarModulus) = .ok r0 →
      C.verifyProofBatch vk t gas (ps.map Groth16Proof.a) (ps.map Groth16Proof.b) (ps.map Groth16Proof.c)
        (ps.map Groth16Proof.input) =
          .ok (decide ((ps.zipIdx.map (fun x => C.residual vk x.1 ^ r0 ^ x.2)).prod = 1)) ∧
      ((∀ pf ∈ ps, C.verifyProof vk pf.a pf.b pf.c pf.input = .ok true) →
        C.verifyProofBatch vk t gas (ps.map Groth16Proof.a) (ps.map Groth16Proof.b) (ps.map Groth16Proof.c)
          (ps.map Groth16Proof.input) = .ok true) := by
  refine ⟨fun pf hpf => verifyProof_eq hvk (hps pf hpf), fun r0 => batchPairingInput_product hvk r0 hps, ?_⟩
  intro t gas r0 hr0
  have hbatch := verifyProofBatch_eq hvk hps hpos hmax hr0
  refine ⟨hbatch, fun haccept => ?_⟩
  rw [hbatch, decide_eq_true (batchResidual_eq_one (fun pf hpf => ?_) r0)]
  have hsingle := haccept pf hpf
  rw [verifyProof_eq hvk (hps pf hpf)] at hsingle
  exact of_decide_eq_true (Except.ok.inj hsingle)

end PairingCurve

namespace ResidueCurve

/-- Words for the residues of `r`, in which a residue and its opposite share the first. -/
def signedWords (r q v : Nat) : Nat × Nat := if 2 * v < r then (v, v) else (r - v, q - (r - v))

theorem signedWords_injective {r q v v' : Nat} (hrq : r < q) (hv : v < r) (hv' : v' < r)
    (h : signedWords r q v = signedWords r q v') : v = v' := by
  unfold signedWords at h
  split at h <;> split at h <;> (obtain ⟨h1, h2⟩ := Prod.mk.inj h; omega)

theorem signedWords_opposite {r q v : Nat} (hodd : r % 2 = 1) (hrq : r < q) (hpos : 0 < v) (hv : v < r) :
    (signedWords r q v).2 ≤ q ∧ signedWords r q (r - v) = ((signedWords r q v).1, q - (signedWords r q v).2) := by
  unfold signedWords
  split <;> split <;> (first | omega | (refine ⟨by dsimp only; omega, Prod.ext ?_ ?_⟩ <;> dsimp only <;> omega))

theorem scalarModulus_lt_primeQ : scalarModulus < primeQ := by decide

def encode (P : Fr) : G1Words := signedWords scalarModulus primeQ P.val

theorem encode_injective : Function.Injective encode := by
  intro P Q h
  have := fact_prime_scalarModulus
  exact ZMod.val_injective _ (signedWords_injective scalarModulus_lt_primeQ (ZMod.val_lt P) (ZMod.val_lt Q) h)

/-- Multiplication of residues, as a pairing. -/
def product : Fr →+ Fr →+ Additive (Multiplicative Fr) :=
  (AddMonoidHom.mul : Fr →+ Fr →+ Fr)

noncomputable def curve : PairingCurve Fr Fr (Multiplicative Fr) where
  e := product
  card_one := Nat.card_zmod _
  card_two := Nat.card_zmod _
  card_target := (Nat.card_congr Multiplicative.toAdd).trans (Nat.card_zmod _)
  encode := encode
  decode := Function.partialInv encode
  decode_eq_some := fun w P => (encode_injective.isPartialInv P w).trans eq_comm
  encode_zero := by
    have := fact_prime_scalarModulus
    rw [encode, ZMod.val_zero]
    rfl
  encode_neg := by
    intro P hP
    have := fact_prime_scalarModulus
    have hneg : (-P).val = scalarModulus - P.val := by
      rw [ZMod.neg_val, if_neg hP]
    rw [encode, encode, hneg]
    exact signedWords_opposite (by decide) scalarModulus_lt_primeQ
      (Nat.pos_of_ne_zero (fun h => hP ((ZMod.val_eq_zero P).mp h))) (ZMod.val_lt P)
  decodeTwo := fun w => some (w.1.1 : Fr)

def key : VerifyingKey := ⟨(1, 1), ((1, 0), (0, 0)), ((1, 0), (0, 0)), ((1, 0), (0, 0)), Vector.replicate 7 (0, 0)⟩

def honest : Groth16Proof := ⟨(1, 1), ((1, 0), (0, 0)), (0, 0), Vector.replicate 6 0⟩

theorem isSome_zero : (curve.decode (0, 0)).isSome := by
  rw [← curve.encode_zero, PairingCurve.decode_encode]
  rfl

theorem isSome_one : (curve.decode (1, 1)).isSome := by
  have hencode : curve.encode 1 = (1, 1) := by decide
  rw [← hencode, PairingCurve.decode_encode]
  rfl

theorem key_wellFormed : curve.KeyWellFormed key where
  alpha := isSome_one
  beta := rfl
  gamma := rfl
  delta := rfl
  ic := fun j => by
    have hword : key.ic.get j = (0, 0) := by
      revert j
      decide
    rw [hword]
    exact isSome_zero

theorem honest_wellFormed : curve.WellFormed honest where
  a := isSome_one
  b := rfl
  c := isSome_zero
  input := by decide

end ResidueCurve

open ResidueCurve in
theorem verifyProofBatch_residuals_honest :
    curve.KeyWellFormed key ∧ curve.WellFormed honest ∧
      ∀ r0, ∃ pIn, curve.batchPairingInput key [honest.a, honest.a] [honest.b, honest.b] [honest.c, honest.c]
          [honest.input, honest.input] r0 = .ok pIn ∧
        curve.pairingProduct pIn =
          some ([(honest, 0), (honest, 1)].map (fun x => curve.residual key x.1 ^ r0 ^ x.2)).prod := by
  have hps : ∀ pf ∈ [honest, honest], curve.WellFormed pf := by simpa using honest_wellFormed
  exact ⟨key_wellFormed, honest_wellFormed,
    (PairingCurve.verifyProofBatch_residuals key_wellFormed hps (by decide) (by decide)).2.1⟩

end DarkPool
