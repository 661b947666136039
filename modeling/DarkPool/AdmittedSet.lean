import DarkPool.Lib.MerkleTree
import DarkPool.StepCircuit

namespace DarkPool

open MerkleTree

/-- The leaves of the tree over a set. -/
def padded (commitments : List Fr) : List Fr :=
  commitments.insertionSort (fun a b => a.val ≤ b.val) ++
    List.replicate (merkleLeaves - (commitments.insertionSort (fun a b => a.val ≤ b.val)).length) emptyLeaf

section Native

variable (env : Env)

/-- The root that a leaf and its path recompute. -/
def rootFromProof (leaf : Fr) (proof : MerkleProof) : Fr :=
  (proof.siblings.zip proof.indexBits).foldl
    (fun cur node => if node.2 then hashTwoNative env node.1 cur else hashTwoNative env cur node.1) leaf

/-- What building the tree hashes. -/
def treeInputs (commitments : List Fr) : List (Fr × Fr) :=
  hashed (hashTwoNative env) merkleDepth (padded commitments)

/-- What checking a path hashes. -/
def pathInputs (leaf : Fr) (proof : MerkleProof) : List (Fr × Fr) :=
  climbed (hashTwoNative env) leaf (proof.siblings.zip proof.indexBits)

end Native

/-- A set that the tree has room for, without the padding leaf. -/
structure Admissible (commitments : List Fr) : Prop where
  fits : commitments.length ≤ merkleLeaves
  nonzero : ∀ c ∈ commitments, c ≠ emptyLeaf

variable {env : Env} {commitments commitments' : List Fr}

section Leaves

theorem canonicalLeaves_of_admissible (h : Admissible commitments) : canonicalLeaves commitments = .ok (padded commitments) := by
  have hnone : ¬ commitments.any (fun c => c = emptyLeaf) = true := by
    rw [List.any_eq_true]
    rintro ⟨c, hc, heq⟩
    exact h.nonzero c hc (of_decide_eq_true heq)
  rw [canonicalLeaves, if_neg (not_lt.mpr h.fits), if_neg hnone]
  rfl

theorem length_padded (h : Admissible commitments) : (padded commitments).length = 2 ^ merkleDepth := by
  have hle : commitments.length ≤ 2 ^ merkleDepth := h.fits
  simp only [padded, List.length_append, List.length_replicate, List.length_insertionSort, merkleLeaves]
  omega

/-- The field values order the leaves, so a set has one sorted list. -/
theorem insertionSort_val_perm (h : commitments.Perm commitments') :
    commitments.insertionSort (fun a b => a.val ≤ b.val) = commitments'.insertionSort (fun a b => a.val ≤ b.val) := by
  have htotal : Std.Total (fun a b : Fr => a.val ≤ b.val) := ⟨fun a b => Nat.le_total a.val b.val⟩
  have htrans : IsTrans Fr (fun a b => a.val ≤ b.val) := ⟨fun _ _ _ => Nat.le_trans⟩
  have hsorted := ((List.perm_insertionSort (fun a b : Fr => a.val ≤ b.val) commitments).trans
    (h.trans (List.perm_insertionSort (fun a b : Fr => a.val ≤ b.val) commitments').symm))
  refine hsorted.eq_of_pairwise ?_ (List.pairwise_insertionSort _ _) (List.pairwise_insertionSort _ _)
  intro a b _ _ hab hba
  exact ZMod.val_injective _ (Nat.le_antisymm hab hba)

theorem mem_padded {leaf : Fr} (hleaf : leaf ≠ emptyLeaf) : leaf ∈ padded commitments ↔ leaf ∈ commitments := by
  simp only [padded, List.mem_append, List.mem_insertionSort, List.mem_replicate]
  exact ⟨fun h => h.resolve_right (fun h => hleaf h.2), Or.inl⟩

/-- Without the padding the leaves are the set again. -/
theorem perm_of_padded_eq (h : Admissible commitments) (h' : Admissible commitments')
    (heq : padded commitments = padded commitments') : commitments.Perm commitments' := by
  have hfilter : ∀ cs : List Fr, Admissible cs → ((padded cs).filter (fun c => c ≠ emptyLeaf)).Perm cs := by
    intro cs hcs
    have hpad : (List.replicate (merkleLeaves - (cs.insertionSort (fun a b => a.val ≤ b.val)).length) emptyLeaf).filter
        (fun c => c ≠ emptyLeaf) = [] := by simp
    rw [padded, List.filter_append, hpad, List.append_nil, List.filter_eq_self.mpr]
    · exact List.perm_insertionSort _ cs
    · intro c hc
      simpa using hcs.nonzero c ((List.mem_insertionSort _).mp hc)
  exact (hfilter commitments h).symm.trans (heq ▸ hfilter commitments' h')

end Leaves

section Tree

theorem hashPairs_eq_up (nodes : List Fr) : hashPairs env nodes = up (hashTwoNative env) nodes := by
  unfold up
  fun_induction pairs nodes with
  | case1 a b rest ih => rw [hashPairs, ih, List.map_cons]
  | case2 nodes hne =>
    rcases nodes with - | ⟨a, - | ⟨b, rest⟩⟩
    · rfl
    · rfl
    · exact absurd rfl (hne a b rest)

theorem levelNode_buildLevels {d k : Nat} (hk : k ≤ d) (nodes : List Fr) (i : Nat) :
    levelNode (buildLevels env d nodes) k i = (level (hashTwoNative env) k nodes).getD i 0 := by
  induction d generalizing k nodes with
  | zero =>
    obtain rfl : k = 0 := by omega
    rfl
  | succ d ih =>
    cases k with
    | zero => rfl
    | succ k =>
      rw [level, ← hashPairs_eq_up]
      exact ih (by omega) (hashPairs env nodes)

theorem range_map_eq_path (n : Nat) (nodes : List Fr) (i : Nat) :
    (List.range n).map (fun d => ((level (hashTwoNative env) d nodes).getD (sibling (i / 2 ^ d)) 0,
      decide (i / 2 ^ d % 2 = 1))) = path (hashTwoNative env) 0 n nodes i := by
  induction n generalizing nodes i with
  | zero => rfl
  | succ n ih =>
    rw [List.range_succ_eq_map, List.map_cons, List.map_map, path, ← ih (up (hashTwoNative env) nodes) (i / 2)]
    congr 1
    · simp [level]
    · refine List.map_congr_left fun d _ => ?_
      have hdiv : i / 2 ^ (d + 1) = i / 2 / 2 ^ d := by rw [pow_succ', Nat.div_div_eq_div_mul]
      simp only [Function.comp_apply, Nat.succ_eq_add_one, hdiv]
      rfl

theorem zip_pathAt (nodes : List Fr) (i : Nat) :
    (pathAt (buildLevels env merkleDepth nodes) i).siblings.zip (pathAt (buildLevels env merkleDepth nodes) i).indexBits =
      path (hashTwoNative env) 0 merkleDepth nodes i := by
  rw [← range_map_eq_path, pathAt, List.zip_map']
  refine List.map_congr_left fun d hd => ?_
  rw [levelNode_buildLevels (List.mem_range.mp hd).le]
  rfl

theorem rootFromProof_eq_climb (leaf : Fr) (proof : MerkleProof) :
    rootFromProof env leaf proof = climb (hashTwoNative env) leaf (proof.siblings.zip proof.indexBits) := by
  have hstep : (fun (cur : Fr) (node : Fr × Bool) =>
      if node.2 then hashTwoNative env node.1 cur else hashTwoNative env cur node.1) = step (hashTwoNative env) := by
    funext cur node
    unfold step join
    split <;> rfl
  rw [rootFromProof, climb, hstep]

/-- The circuit recomputes roots as the native verifier does. -/
theorem merkleRootVar_eq_rootFromProof (leaf : Fr) (proof : MerkleProof) :
    merkleRootVar env leaf proof = rootFromProof env leaf proof := by
  unfold merkleRootVar rootFromProof hashTwoNative
  congr 1
  funext cur node
  split <;> rfl

theorem level_padded (h : Admissible commitments) : level (hashTwoNative env) merkleDepth (padded commitments) =
    [(level (hashTwoNative env) merkleDepth (padded commitments)).getD 0 0] := by
  obtain ⟨root, hroot⟩ := List.length_eq_one_iff.mp (length_level (h := hashTwoNative env) (length_padded h))
  rw [hroot]
  rfl

theorem admittedSetRoot_of_admissible (h : Admissible commitments) : admittedSetRoot env commitments =
    .ok ((level (hashTwoNative env) merkleDepth (padded commitments)).getD 0 0) := by
  rw [admittedSetRoot, canonicalLeaves_of_admissible h]
  exact congrArg Except.ok (levelNode_buildLevels le_rfl _ _)

/-- The path of a leaf leads to the root. -/
theorem rootFromProof_pathAt (h : Admissible commitments) {leaf : Fr} {i : Nat}
    (hi : (padded commitments).findIdx? (fun l => l = leaf) = some i) :
    rootFromProof env leaf (pathAt (buildLevels env merkleDepth (padded commitments)) i) =
      (level (hashTwoNative env) merkleDepth (padded commitments)).getD 0 0 := by
  obtain ⟨hlt, heq, -⟩ := List.findIdx?_eq_some_iff_getElem.mp hi
  have hget : (padded commitments)[i]? = some leaf := by
    rw [List.getElem?_eq_getElem hlt, of_decide_eq_true heq]
  have hclimb := climb_path (h := hashTwoNative env) 0 (length_padded h) hget
  rw [level_padded h] at hclimb
  rw [rootFromProof_eq_climb, zip_pathAt]
  exact (List.singleton_inj.mp hclimb).symm

theorem admittedSetProof_of_mem (h : Admissible commitments) {leaf : Fr} (hleaf : leaf ∈ commitments) :
    ∃ i, (padded commitments).findIdx? (fun l => l = leaf) = some i ∧ admittedSetProof env commitments leaf =
      .ok (some ((level (hashTwoNative env) merkleDepth (padded commitments)).getD 0 0,
        pathAt (buildLevels env merkleDepth (padded commitments)) i)) := by
  have hmem : leaf ∈ padded commitments := (mem_padded (h.nonzero leaf hleaf)).mpr hleaf
  obtain ⟨i, hi⟩ : ∃ i, (padded commitments).findIdx? (fun l => l = leaf) = some i := by
    rw [← Option.isSome_iff_exists, List.findIdx?_isSome, List.any_eq_true]
    exact ⟨leaf, hmem, by simp⟩
  refine ⟨i, hi, ?_⟩
  rw [admittedSetProof, canonicalLeaves_of_admissible h]
  simp only [bind, Except.bind, hi]
  rw [levelNode_buildLevels le_rfl]
  rfl

theorem Admissible.perm (h : Admissible commitments) (hperm : commitments.Perm commitments') : Admissible commitments' :=
  ⟨hperm.length_eq ▸ h.fits, fun c hc => h.nonzero c (hperm.mem_iff.mpr hc)⟩

end Tree

/-- The tree over an admitted set: one root however the set is listed, a path for each member, and, as
long as no two of the pairs hashed collide, neither a path for anything else nor another set. -/
theorem admittedSet_binding (env : Env) (commitments : List Fr) (h : Admissible commitments) :
    ∃ root, admittedSetRoot env commitments = .ok root ∧
      (∀ commitments', commitments.Perm commitments' → admittedSetRoot env commitments' = .ok root) ∧
      (∀ leaf ∈ commitments, ∃ proof, admittedSetProof env commitments leaf = .ok (some (root, proof)) ∧
        proof.Allocated ∧ rootFromProof env leaf proof = root) ∧
      (∀ leaf (proof : MerkleProof), proof.Allocated → leaf ≠ emptyLeaf →
        CollisionFree (hashTwoNative env) (treeInputs env commitments ++ pathInputs env leaf proof) →
        rootFromProof env leaf proof = root → leaf ∈ commitments) ∧
      (∀ commitments', Admissible commitments' →
        CollisionFree (hashTwoNative env) (treeInputs env commitments ++ treeInputs env commitments') →
        admittedSetRoot env commitments' = .ok root → commitments.Perm commitments') := by
  refine ⟨_, admittedSetRoot_of_admissible h, ?_, ?_, ?_, ?_⟩
  · intro commitments' hperm
    rw [admittedSetRoot_of_admissible (h.perm hperm), padded, padded, insertionSort_val_perm hperm]
  · intro leaf hleaf
    obtain ⟨i, hi, hproof⟩ := admittedSetProof_of_mem h hleaf
    exact ⟨_, hproof, ⟨by simp [pathAt], by simp [pathAt]⟩, rootFromProof_pathAt h hi⟩
  · intro leaf proof hproof hleaf hfree hroot
    have hlen : (proof.siblings.zip proof.indexBits).length = merkleDepth := by
      rw [List.length_zip, hproof.1, hproof.2, Nat.min_self]
    refine (mem_padded hleaf).mp (mem_of_climb_eq hlen hfree ?_)
    rw [level_padded h, ← rootFromProof_eq_climb, hroot]
    exact List.mem_singleton_self _
  · intro commitments' h' hfree hroot
    rw [admittedSetRoot_of_admissible h'] at hroot
    refine perm_of_padded_eq h h' (eq_of_level_eq (length_padded h) (length_padded h') hfree ?_)
    rw [level_padded h, level_padded h', Except.ok.inj hroot]

namespace Fills

/-- The pairs of the tree over the commitment 5, under the plain hash. -/
def spineOfFive : List (Nat × Nat) :=
  [(5, 0), (0, 0), (1148, 993), (993, 993), (37574, 32769), (32769, 32769), (1198556, 1049601), (1049601, 1049601),
    (38205830, 33588225), (33588225, 33588225), (1217969948, 1074824193), (1074824193, 1074824193),
    (38831893574, 34394375169), (34394375169, 34394375169), (1238183076956, 1100620006401),
    (1100620006401, 1100620006401)]

theorem spine_five : spine (hashTwoNative plainEnv) 8 5 0 = spineOfFive.map (fun u => ((u.1 : Fr), (u.2 : Fr))) := by
  simp only [spine, hashTwoNative, plainEnv, List.foldl_cons, List.foldl_nil, spineOfFive, List.map_cons, List.map_nil]
  norm_num

theorem spine_five_collisionFree : CollisionFree (hashTwoNative plainEnv) (spine (hashTwoNative plainEnv) 8 5 0) := by
  have hsmall : ∀ u ∈ spineOfFive, 993 + 31 * u.1 + u.2 < 2 ^ 60 := by decide
  have hfree : ∀ u ∈ spineOfFive, ∀ v ∈ spineOfFive, 993 + 31 * u.1 + u.2 = 993 + 31 * v.1 + v.2 → u = v := by decide
  have hhash : ∀ u : Nat × Nat, hashTwoNative plainEnv u.1 u.2 = ((993 + 31 * u.1 + u.2 : Nat) : Fr) := by
    intro u
    simp only [hashTwoNative, plainEnv, List.foldl_cons, List.foldl_nil]
    push_cast
    ring
  have hmod : 2 ^ 60 < scalarModulus := by decide
  rw [spine_five]
  intro u hu v hv heq
  obtain ⟨a, ha, rfl⟩ := List.mem_map.mp hu
  obtain ⟨b, hb, rfl⟩ := List.mem_map.mp hv
  have hval := congrArg ZMod.val ((hhash a).symm.trans (heq.trans (hhash b)))
  rw [ZMod.val_natCast_of_lt ((hsmall a ha).trans hmod), ZMod.val_natCast_of_lt ((hsmall b hb).trans hmod)] at hval
  rw [hfree a ha b hb hval]

end Fills

open Fills in
/-- A set of one commitment, under a hash that tells the pairs of its tree apart. -/
theorem admittedSet_binding_single : ∃ root proof, admittedSetProof plainEnv [5] 5 = .ok (some (root, proof)) ∧
    rootFromProof plainEnv 5 proof = root ∧
    CollisionFree (hashTwoNative plainEnv) (treeInputs plainEnv [5] ++ treeInputs plainEnv [5]) := by
  have hfive : (5 : Fr) ≠ emptyLeaf := by decide
  obtain ⟨root, -, -, hmember, -, -⟩ := admittedSet_binding plainEnv [5]
    ⟨by decide, fun c hc => List.mem_singleton.mp hc ▸ hfive⟩
  obtain ⟨proof, hproof, -, hroot⟩ := hmember 5 (by simp)
  refine ⟨root, proof, hproof, hroot, spine_five_collisionFree.mono fun u hu => mem_spine_of_mem_hashed ?_⟩
  have hpadded : padded [5] = 5 :: List.replicate (2 ^ 8 - 1) 0 := rfl
  rw [treeInputs, hpadded] at hu
  exact (List.mem_append.mp hu).elim id id

end DarkPool
