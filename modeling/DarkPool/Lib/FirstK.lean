import Mathlib.Data.Finset.Card
import Mathlib.Data.List.Nodup

/-- `A` holds the first `k` elements of `S`, or all of them. -/
structure FirstK {α : Type} [DecidableEq α] (before : α → α → Prop) (k : Nat) (S A : Finset α) : Prop where
  subset : A ⊆ S
  card : A.card = min k S.card
  before : ∀ a ∈ A, ∀ s ∈ S, s ∉ A → before a s

namespace FirstK

variable {α : Type} [DecidableEq α] {before : α → α → Prop} {k : Nat} {S T A B : Finset α}

theorem empty : FirstK before k ∅ ∅ where
  subset := Finset.Subset.refl _
  card := by simp
  before := by simp

theorem card_le (h : FirstK before k S A) : A.card ≤ k := h.card.le.trans (min_le_left _ _)

/-- Nothing is left out before `k` are in. -/
theorem card_eq (h : FirstK before k S A) {s : α} (hs : s ∈ S) (hout : s ∉ A) : A.card = k := by
  have hlt : A.card < S.card := Finset.card_lt_card ⟨h.subset, fun hsub => hout (hsub hs)⟩
  have hcard := h.card
  omega

theorem self (h : A.card ≤ k) : FirstK before k A A where
  subset := Finset.Subset.refl _
  card := (min_eq_right h).symm
  before := fun _ _ s hs hout => absurd hs hout

theorem unique_of_antisymm (hanti : ∀ a ∈ S, ∀ b ∈ S, before a b → before b a → a = b) (hA : FirstK before k S A)
    (hB : FirstK before k S B) : A = B := by
  have hcard : B.card = A.card := hB.card.trans hA.card.symm
  refine Finset.eq_of_subset_of_card_le (fun a ha => ?_) hcard.le
  by_contra hout
  have hmore : ∃ b ∈ B, b ∉ A := by
    by_contra hnone
    push Not at hnone
    exact hout (Finset.eq_of_subset_of_card_le hnone hcard.ge ▸ ha)
  obtain ⟨b, hb, hbout⟩ := hmore
  have heq := hanti a (hA.subset ha) b (hB.subset hb) (hA.before a ha b (hB.subset hb) hbout)
    (hB.before b hb a (hA.subset ha) hout)
  exact hout (heq ▸ hb)

theorem unique (hasymm : ∀ a b, before a b → ¬ before b a) (hA : FirstK before k S A) (hB : FirstK before k S B) : A = B :=
  unique_of_antisymm (fun a _ b _ hab hba => absurd hba (hasymm a b hab)) hA hB

/-- What was left out of `S` is not needed when `T` comes in. -/
theorem union (htrans : ∀ a b c, before a b → before b c → before a c) (hA : FirstK before k S A)
    (hB : FirstK before k (A ∪ T) B) : FirstK before k (S ∪ T) B where
  subset := hB.subset.trans (Finset.union_subset_union_left hA.subset)
  card := by
    by_cases hall : S ⊆ A
    · rw [hB.card, Finset.Subset.antisymm hA.subset hall]
    · obtain ⟨s, hs, hout⟩ := Finset.not_subset.mp hall
      have hfull := hA.card_eq hs hout
      have hle : A.card ≤ (A ∪ T).card := Finset.card_le_card Finset.subset_union_left
      have hle' : (A ∪ T).card ≤ (S ∪ T).card := Finset.card_le_card (Finset.union_subset_union_left hA.subset)
      rw [hB.card]
      omega
  before := by
    intro b hb s hs hout
    by_cases hin : s ∈ A ∪ T
    · exact hB.before b hb s hin hout
    · have hsS : s ∈ S := (Finset.mem_union.mp hs).resolve_right (fun h => hin (Finset.mem_union_right A h))
      have hsA : s ∉ A := fun h => hin (Finset.mem_union_left T h)
      by_cases hbA : b ∈ A
      · exact hA.before b hbA s hsS hsA
      · -- `B` took an element of `T`, so it left out one of `A`, which comes in between.
        have hfull := hA.card_eq hsS hsA
        have hleft : ∃ a ∈ A, a ∉ B := by
          by_contra hnone
          push Not at hnone
          exact hbA (Finset.eq_of_subset_of_card_le hnone (hB.card_le.trans hfull.ge) ▸ hb)
        obtain ⟨a, ha, haout⟩ := hleft
        exact htrans b a s (hB.before b hb a (Finset.mem_union_left T ha) haout) (hA.before a ha s hsS hsA)

/-- The first `k` of a list that is in order. -/
theorem take_of_nodup {l : List α} (hnodup : l.Nodup) (hl : l.Pairwise before) :
    FirstK before k l.toFinset (l.take k).toFinset where
  subset := by
    intro a ha
    exact List.mem_toFinset.mpr (List.mem_of_mem_take (List.mem_toFinset.mp ha))
  card := by
    rw [List.toFinset_card_of_nodup (hnodup.sublist (List.take_sublist k l)), List.toFinset_card_of_nodup hnodup,
      List.length_take]
  before := by
    intro a ha s hs hout
    rw [List.mem_toFinset] at ha hs hout
    rw [← List.take_append_drop k l] at hs hl
    exact (List.pairwise_append.mp hl).2.2 a ha s ((List.mem_append.mp hs).resolve_left hout)

theorem take {l : List α} (hirrefl : ∀ a, ¬ before a a) (hl : l.Pairwise before) :
    FirstK before k l.toFinset (l.take k).toFinset := by
  refine take_of_nodup (List.Pairwise.imp ?_ hl) hl
  rintro a _ hab rfl
  exact hirrefl a hab

end FirstK
