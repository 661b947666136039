import Mathlib.Data.List.Basic
import Mathlib.Data.List.Induction

namespace Transition

variable {S A : Type} (step : S → A → Option S)

/-- The state a list of actions leads to, if each of them is enabled in turn. -/
def run (s : S) (as : List A) : Option S := as.foldlM step s

/-- Every action of the run meets the condition in the state it is taken from. -/
def Meets (C : S → A → Prop) : S → List A → Prop
  | _, [] => True
  | s, a :: as => C s a ∧ ∀ t, step s a = some t → Meets C t as

instance decidableMeets (C : S → A → Prop) [∀ s a, Decidable (C s a)] : ∀ s as, Decidable (Meets step C s as)
  | _, [] => isTrue trivial
  | s, a :: as =>
    have : Decidable (∀ t, step s a = some t → Meets step C t as) :=
      match step s a with
      | none => isTrue (fun _ ht => nomatch ht)
      | some t =>
        match decidableMeets C t as with
        | isTrue hm => isTrue (fun _ ht => Option.some.inj ht ▸ hm)
        | isFalse hm => isFalse (fun hall => hm (hall t rfl))
    inferInstanceAs (Decidable (_ ∧ _))

variable {step}

theorem run_nil (s : S) : run step s [] = some s := rfl

theorem run_cons {s t : S} {a : A} {as : List A} :
    run step s (a :: as) = some t ↔ ∃ u, step s a = some u ∧ run step u as = some t := by
  unfold run
  rw [List.foldlM_cons]
  exact Option.bind_eq_some_iff

theorem run_append {s t : S} {as bs : List A} :
    run step s (as ++ bs) = some t ↔ ∃ u, run step s as = some u ∧ run step u bs = some t := by
  unfold run
  rw [List.foldlM_append]
  exact Option.bind_eq_some_iff

theorem Meets.mono {C C' : S → A → Prop} (hC : ∀ s a, C s a → C' s a) {s : S} {as : List A}
    (h : Meets step C s as) : Meets step C' s as := by
  induction as generalizing s with
  | nil => trivial
  | cons a as ih => exact ⟨hC s a h.1, fun t ht => ih (h.2 t ht)⟩

theorem Meets.and {C C' : S → A → Prop} {s : S} {as : List A} (h : Meets step C s as) (h' : Meets step C' s as) :
    Meets step (fun s a => C s a ∧ C' s a) s as := by
  induction as generalizing s with
  | nil => trivial
  | cons a as ih => exact ⟨⟨h.1, h'.1⟩, fun t ht => ih (h.2 t ht) (h'.2 t ht)⟩

/-- A condition on the actions alone. -/
theorem meets_of_mem {P : A → Prop} {s : S} {as : List A} (h : ∀ a ∈ as, P a) : Meets step (fun _ a => P a) s as := by
  induction as generalizing s with
  | nil => trivial
  | cons a as ih =>
    exact ⟨h a List.mem_cons_self, fun t _ => ih (fun b hb => h b (List.mem_cons_of_mem a hb))⟩

/-- What every step that meets the condition preserves holds after every such run. -/
theorem run_invariant {I : S → Prop} {C : S → A → Prop}
    (hstep : ∀ s a t, I s → C s a → step s a = some t → I t) {s t : S} {as : List A} (hs : I s)
    (hc : Meets step C s as) (hrun : run step s as = some t) : I t := by
  induction as generalizing s with
  | nil =>
    cases Option.some.inj hrun
    exact hs
  | cons a as ih =>
    obtain ⟨u, hu, hrest⟩ := run_cons.mp hrun
    exact ih (hstep s a u hs hc.1 hu) (hc.2 u hu) hrest

/-- What every step preserves holds after every run. -/
theorem run_preserves {I : S → Prop} (hstep : ∀ s a t, I s → step s a = some t → I t) {s t : S} {as : List A}
    (hs : I s) (hrun : run step s as = some t) : I t :=
  run_invariant (fun s a t h _ hst => hstep s a t h hst) hs (meets_of_mem (fun _ _ => trivial)) hrun

theorem meets_append {C : S → A → Prop} {s : S} {as bs : List A} :
    Meets step C s (as ++ bs) ↔ Meets step C s as ∧ ∀ u, run step s as = some u → Meets step C u bs := by
  induction as generalizing s with
  | nil =>
    constructor
    · exact fun h => ⟨trivial, fun u hu => Option.some.inj hu ▸ h⟩
    · exact fun h => h.2 s rfl
  | cons a as ih =>
    constructor
    · rintro ⟨ha, hrest⟩
      refine ⟨⟨ha, fun t ht => (ih.mp (hrest t ht)).1⟩, fun u hu => ?_⟩
      obtain ⟨t, ht, hrun⟩ := run_cons.mp hu
      exact (ih.mp (hrest t ht)).2 u hrun
    · rintro ⟨⟨ha, hrest⟩, hbs⟩
      exact ⟨ha, fun t ht => ih.mpr ⟨hrest t ht, fun u hu => hbs u (run_cons.mpr ⟨t, ht, hu⟩)⟩⟩

/-- An invariant that also speaks of the actions taken so far. -/
theorem run_history {I : S → List A → Prop} {C : S → A → Prop} {s t : S} {as : List A}
    (hstep : ∀ u as a v, run step s as = some u → I u as → C u a → step u a = some v → I v (as ++ [a])) (hs : I s [])
    (hc : Meets step C s as) (hrun : run step s as = some t) : I t as := by
  induction as using List.reverseRecOn generalizing t with
  | nil =>
    cases Option.some.inj hrun
    exact hs
  | append_singleton as a ih =>
    obtain ⟨u, hu, hlast⟩ := run_append.mp hrun
    obtain ⟨v, hv, hnil⟩ := run_cons.mp hlast
    cases Option.some.inj hnil
    obtain ⟨hmeets, hmeet⟩ := meets_append.mp hc
    exact hstep u as a t hu (ih hmeets hu) (hmeet u hu).1 hv

variable {B : Type}

variable (step) in
/-- What the actions of a run yield, one after the other. -/
def collect (f : S → A → List B) : S → List A → List B
  | _, [] => []
  | s, a :: as =>
    f s a ++ match step s a with
      | some t => collect f t as
      | none => []

theorem collect_append {f : S → A → List B} {s t : S} {as bs : List A} (h : run step s as = some t) :
    collect step f s (as ++ bs) = collect step f s as ++ collect step f t bs := by
  induction as generalizing s with
  | nil =>
    cases Option.some.inj h
    rfl
  | cons b as ih =>
    obtain ⟨u, hu, hrun⟩ := run_cons.mp h
    simp only [List.cons_append, collect, hu, ih hrun, List.append_assoc]

theorem collect_concat {f : S → A → List B} {s t : S} {as : List A} (h : run step s as = some t) (a : A) :
    collect step f s (as ++ [a]) = collect step f s as ++ f t a := by
  rw [collect_append h]
  simp only [collect]
  split <;> rw [List.append_nil]

variable (step) in
/-- The state a run leads to and a note on each of its actions, in one pass. -/
def trace (note : S → A → B) : S → List A → Option (S × List B)
  | s, [] => some (s, [])
  | s, a :: as =>
    match step s a with
    | none => none
    | some t => (trace note t as).map (fun r => (r.1, note s a :: r.2))

section Trace

variable {note : S → A → B} {s : S} {as : List A} {r : S × List B}

theorem trace_cons {a : A} (h : trace step note s (a :: as) = some r) :
    ∃ t r', step s a = some t ∧ trace step note t as = some r' ∧ r = (r'.1, note s a :: r'.2) := by
  unfold trace at h
  split at h
  next => simp at h
  next t ht =>
    obtain ⟨r', hr', rfl⟩ := Option.map_eq_some_iff.mp h
    exact ⟨t, r', ht, hr', rfl⟩

theorem trace_append {bs : List A} {r' : S × List B} (h : trace step note s as = some r)
    (h' : trace step note r.1 bs = some r') : trace step note s (as ++ bs) = some (r'.1, r.2 ++ r'.2) := by
  induction as generalizing s r with
  | nil =>
    cases Option.some.inj h
    exact h'
  | cons a as ih =>
    obtain ⟨t, r1, ht, hr1, rfl⟩ := trace_cons h
    simp only [List.cons_append, trace, ht, ih hr1 h', Option.map_some]

theorem trace_run (h : trace step note s as = some r) : run step s as = some r.1 := by
  induction as generalizing s r with
  | nil =>
    cases Option.some.inj h
    rfl
  | cons a as ih =>
    obtain ⟨t, r', ht, hr', rfl⟩ := trace_cons h
    have hrun := ih hr'
    exact run_cons.mpr ⟨t, ht, hrun⟩

theorem trace_collect {C : Type} (h : trace step note s as = some r) (f : B → List C) :
    collect step (fun s a => f (note s a)) s as = r.2.flatMap f := by
  induction as generalizing s r with
  | nil =>
    cases Option.some.inj h
    rfl
  | cons a as ih =>
    obtain ⟨t, r', ht, hr', rfl⟩ := trace_cons h
    simp only [collect, ht, ih hr', List.flatMap_cons]

theorem trace_meets {P : B → Prop} (h : trace step note s as = some r) (hall : ∀ b ∈ r.2, P b) :
    Meets step (fun s a => P (note s a)) s as := by
  induction as generalizing s r with
  | nil => trivial
  | cons a as ih =>
    obtain ⟨t, r', ht, hr', rfl⟩ := trace_cons h
    refine ⟨hall _ List.mem_cons_self, fun u hu => ?_⟩
    cases Option.some.inj (ht.symm.trans hu)
    exact ih hr' (fun b hb => hall b (List.mem_cons_of_mem _ hb))

end Trace

end Transition
