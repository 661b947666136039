import Mathlib.Data.Set.Insert

/-- What a scan that takes every pair with two free ends has taken: no end twice, and for every pair it left one
that came no later and has an end in common with it. -/
structure GreedyMatching {γ α β : Type*} (left : γ → α) (right : γ → β) (le : γ → γ → Prop) (l : List γ)
    (M : Set γ) : Prop where
  mem : ∀ c ∈ M, c ∈ l
  left_inj : ∀ c ∈ M, ∀ d ∈ M, left c = left d → c = d
  right_inj : ∀ c ∈ M, ∀ d ∈ M, right c = right d → c = d
  maximal : ∀ c ∈ l, c ∈ M ∨ ∃ d ∈ M, le d c ∧ (left d = left c ∨ right d = right c)

namespace GreedyMatching

variable {γ α β : Type*} {left : γ → α} {right : γ → β} {le : γ → γ → Prop} {l : List γ} {M : Set γ} {c : γ}

theorem empty : GreedyMatching left right le [] ∅ where
  mem _ h := absurd h (Set.notMem_empty _)
  left_inj _ h := absurd h (Set.notMem_empty _)
  right_inj _ h := absurd h (Set.notMem_empty _)
  maximal _ h := absurd h List.not_mem_nil

/-- The pair is skipped: one of its ends is taken. -/
theorem skip (h : GreedyMatching left right le l M) (hle : ∀ d ∈ l, le d c)
    (hc : ∃ d ∈ M, left d = left c ∨ right d = right c) : GreedyMatching left right le (l ++ [c]) M where
  mem d hd := List.mem_append_left _ (h.mem d hd)
  left_inj := h.left_inj
  right_inj := h.right_inj
  maximal d hd := by
    rcases List.mem_append.mp hd with hd | hd
    · exact h.maximal d hd
    · obtain ⟨e, he, hends⟩ := hc
      rw [List.mem_singleton] at hd
      exact Or.inr ⟨e, he, hd ▸ hle e (h.mem e he), hd ▸ hends⟩

/-- The pair is taken: both of its ends are free. -/
theorem take (h : GreedyMatching left right le l M) (hleft : ∀ d ∈ M, left d ≠ left c)
    (hright : ∀ d ∈ M, right d ≠ right c) : GreedyMatching left right le (l ++ [c]) (insert c M) where
  mem d hd := by
    rcases hd with rfl | hd
    · exact List.mem_append_right _ (List.mem_singleton_self _)
    · exact List.mem_append_left _ (h.mem d hd)
  left_inj d hd e he heq := by
    rcases hd with rfl | hd <;> rcases he with rfl | he
    · rfl
    · exact absurd heq.symm (hleft e he)
    · exact absurd heq (hleft d hd)
    · exact h.left_inj d hd e he heq
  right_inj d hd e he heq := by
    rcases hd with rfl | hd <;> rcases he with rfl | he
    · rfl
    · exact absurd heq.symm (hright e he)
    · exact absurd heq (hright d hd)
    · exact h.right_inj d hd e he heq
  maximal d hd := by
    rcases List.mem_append.mp hd with hd | hd
    · rcases h.maximal d hd with hin | ⟨e, he, hle, hends⟩
      · exact Or.inl (Or.inr hin)
      · exact Or.inr ⟨e, Or.inr he, hle, hends⟩
    · exact Or.inl (Or.inl (List.mem_singleton.mp hd))

end GreedyMatching
