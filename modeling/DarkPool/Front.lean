import Mathlib.Data.List.Lex
import Mathlib.Data.List.Sort
import Mathlib.Data.Prod.Lex

namespace DarkPool

/-- A string of the browser: its UTF-16 code units. -/
abbrev JsString := List (Fin 65536)

/-- The comparison `<` of two strings. -/
def JsString.lt : JsString → JsString → Bool
  | _, [] => false
  | [], _ :: _ => true
  | a :: as, b :: bs => if a = b then JsString.lt as bs else a < b

theorem JsString.lt_iff {a b : JsString} : JsString.lt a b = true ↔ a < b := by
  induction a generalizing b with
  | nil =>
    cases b with
    | nil => simp [JsString.lt]
    | cons y ys => simp [JsString.lt]
  | cons x xs ih =>
    cases b with
    | nil => simp [JsString.lt]
    | cons y ys =>
      rw [JsString.lt, List.cons_lt_cons_iff]
      split
      next heq => simp [ih, heq]
      next hne => simp [hne]

def cmpBigint (a b : Int) : Int := if a < b then -1 else if b < a then 1 else 0

def cmpString (a b : JsString) : Int := if JsString.lt a b then -1 else if JsString.lt b a then 1 else 0

/-- `c || d` of two comparisons: the second decides where the first is a tie. -/
def cmpOr (c d : Int) : Int := if c = 0 then d else c

/-- `Array.prototype.sort`, which keeps the order of what compares equal. -/
def sortBy {α : Type} (cmp : α → α → Int) (xs : List α) : List α := xs.insertionSort (fun a b => cmp a b ≤ 0)

section Sorting

variable {α κ : Type} [LinearOrder κ] {cmp : α → α → Int} {key : α → κ}

theorem sortBy_perm (cmp : α → α → Int) (xs : List α) : (sortBy cmp xs).Perm xs := List.perm_insertionSort _ xs

theorem mem_sortBy {xs : List α} {x : α} : x ∈ sortBy cmp xs ↔ x ∈ xs := (sortBy_perm cmp xs).mem_iff

/-- A comparator that compares a key sorts by it. -/
theorem sortBy_pairwise (hcmp : ∀ a b, cmp a b ≤ 0 ↔ key a ≤ key b) (xs : List α) :
    (sortBy cmp xs).Pairwise (fun a b => key a ≤ key b) := by
  have htotal : Std.Total (fun a b => cmp a b ≤ 0) := ⟨fun a b => by simpa only [hcmp] using le_total (key a) (key b)⟩
  have htrans : IsTrans α (fun a b => cmp a b ≤ 0) :=
    ⟨fun a b c hab hbc => (hcmp a c).mpr (((hcmp a b).mp hab).trans ((hcmp b c).mp hbc))⟩
  exact (List.pairwise_insertionSort _ xs).imp (fun h => (hcmp _ _).mp h)

/-- Where the keys are all different, only what is sorted matters. -/
theorem sortBy_eq_of_perm (hcmp : ∀ a b, cmp a b ≤ 0 ↔ key a ≤ key b) {xs ys : List α} (hperm : xs.Perm ys)
    (hinj : ∀ a ∈ xs, ∀ b ∈ xs, key a = key b → a = b) : sortBy cmp xs = sortBy cmp ys := by
  have hsorted : (sortBy cmp xs).Perm (sortBy cmp ys) := (sortBy_perm cmp xs).trans (hperm.trans (sortBy_perm cmp ys).symm)
  refine hsorted.eq_of_pairwise ?_ (sortBy_pairwise hcmp xs) (sortBy_pairwise hcmp ys)
  intro a b ha hb hab hba
  exact hinj a (mem_sortBy.mp ha) b (hperm.mem_iff.mpr (mem_sortBy.mp hb)) (le_antisymm hab hba)

/-- The comparator's sign is that of a comparison of keys. -/
structure Compares (cmp : α → α → Int) (key : α → κ) : Prop where
  lt : ∀ a b, cmp a b < 0 ↔ key a < key b
  eq : ∀ a b, cmp a b = 0 ↔ key a = key b

theorem Compares.le (h : Compares cmp key) (a b : α) : cmp a b ≤ 0 ↔ key a ≤ key b := by
  rw [le_iff_lt_or_eq, le_iff_lt_or_eq, h.lt, h.eq]

theorem Compares.cmpOr {κ' : Type} [LinearOrder κ'] {cmp' : α → α → Int} {key' : α → κ'} (h : Compares cmp key)
    (h' : Compares cmp' key') :
    Compares (fun a b => cmpOr (cmp a b) (cmp' a b)) (fun a => toLex (key a, key' a)) where
  lt a b := by
    simp only [DarkPool.cmpOr, Prod.Lex.toLex_lt_toLex, ← h.lt, ← h.eq]
    split
    next heq => simp [heq, h'.lt]
    next hne => simp [hne]
  eq a b := by
    simp only [DarkPool.cmpOr, EmbeddingLike.apply_eq_iff_eq, Prod.mk.injEq, ← h.eq]
    split
    next heq => simp [heq, h'.eq]
    next hne => simp [hne]

/-- The two comparisons of the front end, each with the `<` of its type. -/
theorem compares_ite (key : α → κ) :
    Compares (fun a b => if key a < key b then -1 else if key b < key a then 1 else 0) key where
  lt a b := by
    split
    next hlt => simp [hlt]
    next hnlt => split <;> simp [hnlt]
  eq a b := by
    split
    next hlt => simp [hlt.ne]
    next hnlt =>
      split
      next hgt => simp [hgt.ne']
      next hngt => simp [le_antisymm (not_lt.mp hngt) (not_lt.mp hnlt)]

theorem compares_cmpBigint (key : α → Int) : Compares (fun a b => cmpBigint (key a) (key b)) key := compares_ite key

theorem compares_cmpString (key : α → JsString) : Compares (fun a b => cmpString (key a) (key b)) key := by
  simp only [cmpString, JsString.lt_iff]
  convert compares_ite key

end Sorting

end DarkPool
