import Mathlib.Algebra.Ring.Nat
import Mathlib.Data.List.AList
import Mathlib.Data.Finset.Basic

/-- A finite map; the order of its entries stands for the iteration order. -/
abbrev Table (K V : Type) := AList (fun _ : K => V)

namespace Table

variable {K V : Type} [DecidableEq K]

def values (t : Table K V) : List V := t.entries.map Sigma.snd

def isEmpty (t : Table K V) : Bool := t.entries.isEmpty

/-- Rewrites the value of one key in place; an absent key stays absent. -/
def modify (t : Table K V) (k : K) (f : V → V) : Table K V :=
  match t.lookup k with
  | some v => t.insert k (f v)
  | none => t

/-- Keeps the entries that pass the test. -/
def retain (t : Table K V) (keep : K → V → Bool) : Table K V :=
  ⟨t.entries.filter (fun e => keep e.1 e.2), List.NodupKeys.sublist List.filter_sublist t.nodupKeys⟩

theorem mem_entries {t : Table K V} {k : K} {v : V} : ⟨k, v⟩ ∈ t.entries ↔ t.lookup k = some v :=
  AList.mem_lookup_iff.symm

theorem lookup_insert_eq (t : Table K V) (k k' : K) (v : V) :
    (t.insert k v).lookup k' = if k' = k then some v else t.lookup k' := by
  split
  next h => rw [h, AList.lookup_insert]
  next h => rw [AList.lookup_insert_ne h]

theorem lookup_erase_eq (t : Table K V) (k k' : K) :
    (t.erase k).lookup k' = if k' = k then none else t.lookup k' := by
  split
  next h => rw [h, AList.lookup_erase]
  next h => rw [AList.lookup_erase_ne h]

theorem lookup_insert_cases {t : Table K V} {k k' : K} {v v' : V} (h : (t.insert k v).lookup k' = some v') :
    k' = k ∧ v' = v ∨ k' ≠ k ∧ t.lookup k' = some v' := by
  rw [lookup_insert_eq] at h
  split at h
  next heq => exact Or.inl ⟨heq, (Option.some.inj h).symm⟩
  next hne => exact Or.inr ⟨hne, h⟩

theorem lookup_erase_cases {t : Table K V} {k k' : K} {v' : V} (h : (t.erase k).lookup k' = some v') :
    k' ≠ k ∧ t.lookup k' = some v' := by
  rw [lookup_erase_eq] at h
  split at h
  next => simp at h
  next hne => exact ⟨hne, h⟩

theorem lookup_modify_eq (t : Table K V) (k k' : K) (f : V → V) :
    (t.modify k f).lookup k' = if k' = k then (t.lookup k').map f else t.lookup k' := by
  unfold modify
  split
  next v hv =>
    rw [lookup_insert_eq]
    split
    next h => rw [h, hv, Option.map_some]
    next => rfl
  next hnone =>
    split
    next h => rw [h, hnone, Option.map_none]
    next => rfl

theorem lookup_of_retain {t : Table K V} {keep : K → V → Bool} {k : K} {v : V}
    (h : (t.retain keep).lookup k = some v) : t.lookup k = some v := by
  rw [← mem_entries] at h ⊢
  exact (List.mem_filter.mp h).1

theorem lookup_retain_of_keep {t : Table K V} {keep : K → V → Bool} {k : K} {v : V} (h : t.lookup k = some v)
    (hkeep : keep k v = true) : (t.retain keep).lookup k = some v := by
  rw [← mem_entries] at h ⊢
  exact List.mem_filter.mpr ⟨h, hkeep⟩

theorem lookup_retain_eq (t : Table K V) (keep : K → V → Bool) (k : K) :
    (t.retain keep).lookup k = (t.lookup k).filter (keep k) := by
  cases hkeep : (t.retain keep).lookup k with
  | some v =>
    have hv := hkeep
    rw [← mem_entries] at hv
    have hpass : keep k v = true := (List.mem_filter.mp hv).2
    rw [lookup_of_retain hkeep, Option.filter_some, if_pos hpass]
  | none =>
    cases hv : t.lookup k with
    | none => rfl
    | some v =>
      have hdrop : ¬ keep k v = true := fun hpass => by
        rw [lookup_retain_of_keep hv hpass] at hkeep
        cases hkeep
      rw [Option.filter_some, if_neg hdrop]

theorem mem_iff_lookup {t : Table K V} {k : K} : k ∈ t ↔ ∃ v, t.lookup k = some v := by
  rw [← AList.lookup_isSome, Option.isSome_iff_exists]

/-- The set of the keys. -/
def keySet (t : Table K V) : Finset K := t.keys.toFinset

@[simp] theorem mem_keySet {t : Table K V} {k : K} : k ∈ t.keySet ↔ k ∈ t := by
  rw [keySet, List.mem_toFinset]
  exact Iff.rfl

theorem keySet_insert (t : Table K V) (k : K) (v : V) : keySet (t.insert k v) = insert k t.keySet := by
  ext k'
  simp

theorem keySet_erase (t : Table K V) (k : K) : keySet (t.erase k) = t.keySet.erase k := by
  ext k'
  simp

theorem keySet_modify (t : Table K V) (k : K) (f : V → V) : keySet (t.modify k f) = t.keySet := by
  unfold modify
  split
  next v hv =>
    have hk : k ∈ t.keySet := mem_keySet.mpr (mem_iff_lookup.mpr ⟨v, hv⟩)
    rw [keySet_insert, Finset.insert_eq_of_mem hk]
  next => rfl

theorem mem_values {t : Table K V} {v : V} : v ∈ t.values ↔ ∃ k, t.lookup k = some v := by
  constructor
  · intro h
    obtain ⟨⟨k, w⟩, he, rfl⟩ := List.mem_map.mp h
    exact ⟨k, mem_entries.mp he⟩
  · rintro ⟨k, h⟩
    exact List.mem_map.mpr ⟨⟨k, v⟩, mem_entries.mpr h, rfl⟩

theorem mem_values_insert {t : Table K V} {k : K} {v x : V} (h : x ∈ values (t.insert k v)) : x = v ∨ x ∈ t.values := by
  obtain ⟨k', hk'⟩ := mem_values.mp h
  rw [lookup_insert_eq] at hk'
  split at hk'
  next => exact Or.inl (Option.some.inj hk').symm
  next => exact Or.inr (mem_values.mpr ⟨k', hk'⟩)

theorem mem_values_erase {t : Table K V} {k : K} {x : V} (h : x ∈ values (t.erase k)) : x ∈ t.values := by
  obtain ⟨k', hk'⟩ := mem_values.mp h
  rw [lookup_erase_eq] at hk'
  split at hk'
  next => simp at hk'
  next => exact mem_values.mpr ⟨k', hk'⟩

/-- Values that know their key are all different. -/
theorem values_map_nodup {t : Table K V} {f : V → K} (h : ∀ {k v}, t.lookup k = some v → f v = k) :
    (t.values.map f).Nodup := by
  have hkeys : t.values.map f = t.keys := by
    unfold Table.values AList.keys List.keys
    rw [List.map_map]
    apply List.map_congr_left
    rintro ⟨k, v⟩ hm
    exact h (Table.mem_entries.mp hm)
  rw [hkeys]
  exact t.keys_nodup

theorem values_perm_erase {t : Table K V} {k : K} {v : V} (h : t.lookup k = some v) :
    t.values.Perm (v :: values (t.erase k)) := by
  obtain ⟨w, l₁, l₂, hout, hentries, herase⟩ := List.exists_of_kerase (AList.mem_keys.mp (mem_iff_lookup.mpr ⟨v, h⟩))
  have hmem : ⟨k, w⟩ ∈ t.entries := hentries ▸ List.mem_append_right l₁ List.mem_cons_self
  obtain rfl : v = w := Option.some.inj (h.symm.trans (mem_entries.mp hmem))
  have hrest : values (t.erase k) = (l₁ ++ l₂).map Sigma.snd := by
    rw [← herase]
    rfl
  rw [hrest, values, hentries, List.map_append, List.map_append, List.map_cons]
  exact List.perm_middle

theorem values_insert_of_none {t : Table K V} {k : K} (v : V) (h : t.lookup k = none) :
    values (t.insert k v) = v :: t.values := by
  have habsent : k ∉ t := AList.lookup_eq_none.mp h
  rw [values, AList.entries_insert_of_notMem habsent, List.map_cons, values]

theorem le_sum_values {t : Table K V} (f : V → Nat) {k : K} {v : V} (h : t.lookup k = some v) :
    f v ≤ (t.values.map f).sum := by
  rw [((values_perm_erase h).map f).sum_nat, List.map_cons, List.sum_cons]
  exact Nat.le_add_right _ _

theorem add_le_sum_values {t : Table K V} (f : V → Nat) {k k' : K} {v v' : V} (h : t.lookup k = some v)
    (h' : t.lookup k' = some v') (hne : k' ≠ k) : f v + f v' ≤ (t.values.map f).sum := by
  rw [((values_perm_erase h).map f).sum_nat, List.map_cons, List.sum_cons]
  have hrest : (t.erase k).lookup k' = some v' := by rw [lookup_erase_eq, if_neg hne, h']
  exact Nat.add_le_add_left (le_sum_values f hrest) _

theorem isEmpty_iff {t : Table K V} : t.isEmpty = true ↔ ∀ k, t.lookup k = none := by
  constructor
  · intro h k
    rw [AList.lookup_eq_none, AList.mem_keys, AList.keys, List.isEmpty_iff.mp h]
    simp
  · intro h
    apply List.isEmpty_iff.mpr
    apply List.eq_nil_iff_forall_not_mem.mpr
    rintro ⟨k, v⟩ hm
    rw [mem_entries, h k] at hm
    simp at hm

end Table
