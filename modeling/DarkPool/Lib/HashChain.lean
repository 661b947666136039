import Mathlib.Data.List.Induction

namespace HashChain

variable {A X : Type} {f : A → X → A} {seed : A}

/-- What is hashed on the way along a chain. -/
def inputs (f : A → X → A) : A → List X → List (A × X)
  | _, [] => []
  | acc, x :: xs => (acc, x) :: inputs f (f acc x) xs

theorem inputs_append (xs ys : List X) : inputs f seed (xs ++ ys) = inputs f seed xs ++ inputs f (xs.foldl f seed) ys := by
  induction xs generalizing seed with
  | nil => rfl
  | cons x xs ih => simp [inputs, ih]

/-- The hash has no collision among the inputs and does not hit the seed on them. -/
structure CollisionFree (f : A → X → A) (seed : A) (S : List (A × X)) : Prop where
  inj : ∀ u ∈ S, ∀ v ∈ S, f u.1 u.2 = f v.1 v.2 → u = v
  fresh : ∀ u ∈ S, f u.1 u.2 ≠ seed

theorem CollisionFree.mono {S T : List (A × X)} (h : CollisionFree f seed T) (hsub : ∀ u ∈ S, u ∈ T) :
    CollisionFree f seed S :=
  ⟨fun u hu v hv => h.inj u (hsub u hu) v (hsub v hv), fun u hu => h.fresh u (hsub u hu)⟩

/-- A chain determines its elements and their order, over lists of any lengths. -/
theorem CollisionFree.eq_of_foldl_eq {xs ys : List X} (h : CollisionFree f seed (inputs f seed xs ++ inputs f seed ys))
    (heq : xs.foldl f seed = ys.foldl f seed) : xs = ys := by
  induction xs using List.reverseRecOn generalizing ys with
  | nil =>
    rcases List.eq_nil_or_concat ys with rfl | ⟨ys, y, rfl⟩
    · rfl
    · rw [List.concat_eq_append, List.foldl_append] at heq
      refine absurd heq.symm (h.fresh (ys.foldl f seed, y) ?_)
      simp [List.concat_eq_append, inputs_append, inputs]
  | append_singleton xs x ih =>
    rcases List.eq_nil_or_concat ys with rfl | ⟨ys, y, rfl⟩
    · rw [List.foldl_append] at heq
      refine absurd heq (h.fresh (xs.foldl f seed, x) ?_)
      simp [inputs_append, inputs]
    · rw [List.concat_eq_append, List.foldl_append, List.foldl_append] at heq
      have hlast : (xs.foldl f seed, x) = (ys.foldl f seed, y) :=
        h.inj _ (by simp [inputs_append, inputs]) _ (by simp [List.concat_eq_append, inputs_append, inputs]) heq
      obtain ⟨hacc, rfl⟩ := Prod.mk.inj hlast
      have hsub : ∀ u ∈ inputs f seed xs ++ inputs f seed ys,
          u ∈ inputs f seed (xs ++ [x]) ++ inputs f seed (ys.concat x) := by
        intro u hu
        rw [List.concat_eq_append, inputs_append, inputs_append]
        rcases List.mem_append.mp hu with hu | hu
        · exact List.mem_append_left _ (List.mem_append_left _ hu)
        · exact List.mem_append_right _ (List.mem_append_left _ hu)
      rw [ih (h.mono hsub) hacc, List.concat_eq_append]

end HashChain
