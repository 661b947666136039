import Mathlib.Data.List.Basic
import Mathlib.Data.List.Induction

namespace Attempts

variable {S A K E : Type} (exec : S → A → Except E S)

/-- An attempt that is refused changes nothing. -/
def step (s : S) (a : A) : S :=
  match exec s a with
  | .ok t => t
  | .error _ => s

def run (s : S) (as : List A) : S := as.foldl (step exec) s

/-- The attempts that are not refused, in order. -/
def accepted : S → List A → List A
  | _, [] => []
  | s, a :: as =>
    match exec s a with
    | .ok t => a :: accepted t as
    | .error _ => accepted s as

variable {exec}

theorem run_append (s : S) (as bs : List A) : run exec s (as ++ bs) = run exec (run exec s as) bs := List.foldl_append

theorem accepted_append (s : S) (as bs : List A) :
    accepted exec s (as ++ bs) = accepted exec s as ++ accepted exec (run exec s as) bs := by
  induction as generalizing s with
  | nil => rfl
  | cons a as ih =>
    cases h : exec s a with
    | ok t => simp only [List.cons_append, accepted, h, ih, run, List.foldl_cons, step]
    | error e => simp only [List.cons_append, accepted, h, ih, run, List.foldl_cons, step]

theorem accepted_sublist (s : S) (as : List A) : List.Sublist (accepted exec s as) as := by
  induction as generalizing s with
  | nil => exact .slnil
  | cons a as ih =>
    cases h : exec s a with
    | ok t =>
      simp only [accepted, h]
      exact (ih t).cons_cons a
    | error e =>
      simp only [accepted, h]
      exact (ih s).cons a

/-- An invariant that also speaks of what has been accepted. -/
theorem run_accepted {I : S → List A → Prop} {s : S}
    (hstep : ∀ t as a u, I t as → exec t a = .ok u → I u (as ++ [a])) (hs : I s []) (as : List A) :
    I (run exec s as) (accepted exec s as) := by
  induction as using List.reverseRecOn with
  | nil => exact hs
  | append_singleton as a ih =>
    rw [run_append, accepted_append]
    cases h : exec (run exec s as) a with
    | ok u =>
      have hrun : run exec (run exec s as) [a] = u := by simp only [run, List.foldl_cons, List.foldl_nil, step] at h ⊢; rw [h]
      have hacc : accepted exec (run exec s as) [a] = [a] := by simp only [accepted, h]
      rw [hrun, hacc]
      exact hstep _ _ a u ih h
    | error e =>
      have hrun : run exec (run exec s as) [a] = run exec s as := by
        simp only [run, List.foldl_cons, List.foldl_nil, step] at h ⊢
        rw [h]
      have hacc : accepted exec (run exec s as) [a] = [] := by simp only [accepted, h]
      rw [hrun, hacc, List.append_nil]
      exact ih

/-- Every action with the key `k` sets the flag of `k`, nothing else does, and none passes a flag that
is set. -/
structure Latch (exec : S → A → Except E S) (key : A → Option K) (flag : S → K → Bool) : Prop where
  guards : ∀ {s a t k}, exec s a = .ok t → key a = some k → flag s k = false
  sets : ∀ {s a t} (k), exec s a = .ok t → (flag t k = true ↔ flag s k = true ∨ key a = some k)

namespace Latch

variable {key : A → Option K} {flag : S → K → Bool} {s : S}

/-- The flags that are set are the keys of what has been accepted, and no key is accepted twice. -/
theorem history (h : Latch exec key flag) (hs : ∀ k, flag s k = false) (as : List A) :
    (∀ k, flag (run exec s as) k = true ↔ ∃ a ∈ accepted exec s as, key a = some k) ∧
      (accepted exec s as).Pairwise (fun a b => ∀ k, key a = some k → key b ≠ some k) := by
  refine run_accepted (I := fun t acc => (∀ k, flag t k = true ↔ ∃ a ∈ acc, key a = some k) ∧
    acc.Pairwise (fun a b => ∀ k, key a = some k → key b ≠ some k)) ?_ ⟨by simp [hs], .nil⟩ as
  intro t acc a u hacc hexec
  refine ⟨fun k => ?_, List.pairwise_append.mpr ⟨hacc.2, List.pairwise_singleton _ _, ?_⟩⟩
  · rw [h.sets k hexec, hacc.1]
    simp [or_and_right, exists_or]
  · intro b hb a' ha' k hkb hka
    rw [List.mem_singleton.mp ha'] at hka
    have hset : flag t k = true := (hacc.1 k).mpr ⟨b, hb, hkb⟩
    rw [h.guards hexec hka] at hset
    exact Bool.false_ne_true hset

end Latch

/-- At most one element has a property that no two of them share. -/
theorem countP_le_one {l : List A} {p : A → Bool} (h : l.Pairwise (fun a b => p a = true → p b = false)) :
    l.countP p ≤ 1 := by
  induction l with
  | nil => simp
  | cons a l ih =>
    obtain ⟨ha, hl⟩ := List.pairwise_cons.mp h
    rw [List.countP_cons]
    by_cases hp : p a = true
    · have hzero : l.countP p = 0 := List.countP_eq_zero.mpr (fun b hb => by simp [ha b hb hp])
      simp [hzero, hp]
    · simpa [hp] using ih hl

end Attempts
