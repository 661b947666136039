import Mathlib.Data.List.Basic

namespace List

variable {α : Type} {Q : List α → α → Prop}

/-- Every entry stands in the relation to the entries before it. -/
def EachAfter (Q : List α → α → Prop) (l : List α) : Prop := ∀ before x after, l = before ++ x :: after → Q before x

theorem eachAfter_nil : EachAfter Q [] := by
  intro before x after h
  simp at h

theorem EachAfter.append {xs ys : List α} (h : EachAfter Q xs)
    (hys : ∀ before y after, ys = before ++ y :: after → Q (xs ++ before) y) : EachAfter Q (xs ++ ys) := by
  intro before x after hsplit
  rcases List.append_eq_append_iff.mp hsplit with ⟨rest, rfl, hrest⟩ | ⟨rest, rfl, hrest⟩
  · exact hys rest x after hrest
  · -- The entry is the last of the old ones left, or the first of the new ones.
    cases rest with
    | nil =>
      rw [append_nil] at hys
      have hq := hys [] x after hrest.symm
      rwa [append_nil] at hq
    | cons y rest =>
      obtain ⟨rfl, -⟩ := List.cons.inj hrest
      exact h before x rest rfl

theorem EachAfter.concat {xs : List α} {y : α} (h : EachAfter Q xs) (hy : Q xs y) : EachAfter Q (xs ++ [y]) := by
  refine h.append (fun before x after hsplit => ?_)
  obtain ⟨rfl, rfl, -⟩ : before = [] ∧ x = y ∧ after = [] := by
    cases before with
    | nil => simpa [eq_comm] using hsplit
    | cons z before => simp at hsplit
  rwa [append_nil]

end List
