import Mathlib.Data.List.Basic

/-- Cuts a list into consecutive pieces of at most `n` elements; the second argument bounds
the number of pieces. -/
def List.chunksUpTo {α : Type} (n : Nat) : Nat → List α → List (List α)
  | 0, _ => []
  | _ + 1, [] => []
  | k + 1, a :: l => (a :: l).take n :: chunksUpTo n k ((a :: l).drop n)

/-- Consecutive pieces of `n` elements, the last one possibly shorter. -/
def List.pieces {α : Type} (n : Nat) (l : List α) : List (List α) := l.chunksUpTo n l.length

namespace List

variable {α : Type} {n : Nat}

theorem flatten_chunksUpTo (hn : 0 < n) (k : Nat) (l : List α) (hk : l.length ≤ k) :
    (l.chunksUpTo n k).flatten = l := by
  induction k generalizing l with
  | zero =>
    have hnil : l = [] := List.length_eq_zero_iff.mp (by omega)
    rw [hnil]
    rfl
  | succ k ih =>
    cases l with
    | nil => rfl
    | cons a l =>
      have hdrop : ((a :: l).drop n).length ≤ k := by
        rw [List.length_drop, List.length_cons]
        rw [List.length_cons] at hk
        omega
      rw [chunksUpTo, List.flatten_cons, ih _ hdrop, List.take_append_drop]

theorem flatten_pieces (hn : 0 < n) (l : List α) : (l.pieces n).flatten = l :=
  flatten_chunksUpTo hn l.length l (Nat.le_refl _)

theorem length_le_of_mem_pieces {l c : List α} (h : c ∈ l.pieces n) : c.length ≤ n := by
  have hgen : ∀ (k : Nat) (l : List α), c ∈ l.chunksUpTo n k → c.length ≤ n := by
    intro k
    induction k with
    | zero => intro l h; simp [chunksUpTo] at h
    | succ k ih =>
      intro l h
      cases l with
      | nil => simp [chunksUpTo] at h
      | cons a l =>
        rcases List.mem_cons.mp h with h | h
        · rw [h, List.length_take]
          omega
        · exact ih _ h
  exact hgen l.length l h

/-- A piece holds only elements of the list it was cut from. -/
theorem mem_of_mem_pieces (hn : 0 < n) {l c : List α} {a : α} (hc : c ∈ l.pieces n) (ha : a ∈ c) : a ∈ l := by
  rw [← flatten_pieces hn l]
  exact List.mem_flatten.mpr ⟨c, hc, ha⟩

/-- One piece is enough exactly when the list fits into it. -/
theorem length_pieces_le_one (hn : 0 < n) {l : List α} : (l.pieces n).length ≤ 1 ↔ l.length ≤ n := by
  constructor
  · intro h
    rw [← flatten_pieces hn l]
    match hp : l.pieces n, h with
    | [], _ => exact Nat.zero_le n
    | [c], _ =>
      rw [flatten_singleton]
      exact length_le_of_mem_pieces (l := l) (by rw [hp]; exact mem_singleton_self c)
  · intro h
    cases l with
    | nil => exact Nat.zero_le 1
    | cons a l =>
      have hrest : ∀ k, ([] : List α).chunksUpTo n k = [] := by
        intro k
        cases k <;> rfl
      rw [pieces, length_cons, chunksUpTo, drop_eq_nil_of_le h, hrest]
      exact Nat.le_refl 1

end List
