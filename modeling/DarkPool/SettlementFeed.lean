import DarkPool.Correlate
import DarkPool.Lib.FirstK

namespace DarkPool

def settlementEventsCap : Nat := 256

/-- The filter of `addEvents`: the first event of each batch that is not in the store yet. -/
def freshEvents (seen : List JsString) : List SettlementEvent → List SettlementEvent
  | [] => []
  | e :: incoming =>
    if e.batchId ∈ seen then freshEvents seen incoming else e :: freshEvents (e.batchId :: seen) incoming

/-- Newest first; equal times keep their order. -/
def cmpNewest (a b : SettlementEvent) : Int :=
  if a.timestampUnix < b.timestampUnix then 1 else if b.timestampUnix < a.timestampUnix then -1 else 0

def addEvents (events incoming : List SettlementEvent) : List SettlementEvent :=
  let fresh := freshEvents (events.map SettlementEvent.batchId) incoming
  if fresh.length = 0 then events else (sortBy cmpNewest (fresh ++ events)).take settlementEventsCap

/-- The store after the watcher has reported these lists, one after the other. -/
def observeAll (reports : List (List SettlementEvent)) : List SettlementEvent := reports.foldl addEvents []

section Fresh

variable {seen : List JsString} {incoming : List SettlementEvent} {e : SettlementEvent}

theorem freshEvents_subset (h : e ∈ freshEvents seen incoming) : e ∈ incoming ∧ e.batchId ∉ seen := by
  induction incoming generalizing seen with
  | nil => simp [freshEvents] at h
  | cons x incoming ih =>
    rw [freshEvents] at h
    split at h
    next =>
      obtain ⟨hmem, hseen⟩ := ih h
      exact ⟨List.mem_cons_of_mem x hmem, hseen⟩
    next hx =>
      rcases List.mem_cons.mp h with rfl | h
      · exact ⟨List.mem_cons_self, hx⟩
      · obtain ⟨hmem, hseen⟩ := ih h
        exact ⟨List.mem_cons_of_mem x hmem, fun hin => hseen (List.mem_cons_of_mem _ hin)⟩

theorem nodup_freshEvents (seen : List JsString) (incoming : List SettlementEvent) :
    ((freshEvents seen incoming).map SettlementEvent.batchId).Nodup := by
  induction incoming generalizing seen with
  | nil => exact List.nodup_nil
  | cons x incoming ih =>
    rw [freshEvents]
    split
    next => exact ih seen
    next =>
      rw [List.map_cons, List.nodup_cons]
      refine ⟨fun hmem => ?_, ih _⟩
      obtain ⟨e, he, hid⟩ := List.mem_map.mp hmem
      exact (freshEvents_subset he).2 (hid ▸ List.mem_cons_self)

/-- Every batch reported is in the store already or among the fresh ones. -/
theorem seen_or_fresh (seen : List JsString) (h : e ∈ incoming) :
    e.batchId ∈ seen ∨ ∃ x ∈ freshEvents seen incoming, x.batchId = e.batchId := by
  induction incoming generalizing seen with
  | nil => simp at h
  | cons x incoming ih =>
    rw [freshEvents]
    rcases List.mem_cons.mp h with rfl | h
    · split
      next hin => exact Or.inl hin
      next => exact Or.inr ⟨e, List.mem_cons_self, rfl⟩
    · split
      next => exact ih seen h
      next =>
        rcases ih (x.batchId :: seen) h with hin | ⟨y, hy, hid⟩
        · rcases List.mem_cons.mp hin with heq | hin
          · exact Or.inr ⟨x, List.mem_cons_self, heq.symm⟩
          · exact Or.inl hin
        · exact Or.inr ⟨y, List.mem_cons_of_mem x hy, hid⟩

end Fresh

theorem cmpNewest_nonpos_iff (a b : SettlementEvent) :
    cmpNewest a b ≤ 0 ↔ OrderDual.toDual a.timestampUnix ≤ OrderDual.toDual b.timestampUnix := by
  rw [OrderDual.toDual_le_toDual]
  unfold cmpNewest
  split
  next hlt => simp [hlt]
  next hge =>
    have hle := not_lt.mp hge
    split <;> simp [hle]

/-- No batch is reported in two ways. -/
def OneEach (delivered : List SettlementEvent) : Prop := ∀ a ∈ delivered, ∀ b ∈ delivered, a.batchId = b.batchId → a = b

def NotOlder (a b : SettlementEvent) : Prop := b.timestampUnix ≤ a.timestampUnix

/-- The store holds the newest of what was delivered, newest first, each batch once. -/
structure Observed (delivered events : List SettlementEvent) : Prop where
  newest : events.Pairwise NotOlder
  unique : (events.map SettlementEvent.batchId).Nodup
  first : FirstK NotOlder settlementEventsCap delivered.toFinset events.toFinset

namespace Observed

variable {delivered events incoming : List SettlementEvent}

theorem empty : Observed [] [] := ⟨List.Pairwise.nil, List.nodup_nil, FirstK.empty⟩

theorem nodup (h : Observed delivered events) : events.Nodup := h.unique.of_map _

theorem mem_delivered (h : Observed delivered events) {e : SettlementEvent} (he : e ∈ events) : e ∈ delivered :=
  List.mem_toFinset.mp (h.first.subset (List.mem_toFinset.mpr he))

/-- Together, the fresh events and those in the store are those in the store and those reported. -/
theorem toFinset_fresh (h : Observed delivered events) (hone : OneEach (delivered ++ incoming)) :
    (freshEvents (events.map SettlementEvent.batchId) incoming ++ events).toFinset =
      events.toFinset ∪ incoming.toFinset := by
  ext e
  simp only [List.mem_toFinset, List.mem_append, Finset.mem_union]
  constructor
  · rintro (hfresh | hin)
    · exact Or.inr (freshEvents_subset hfresh).1
    · exact Or.inl hin
  · rintro (hin | hin)
    · exact Or.inr hin
    · have hleft : e ∈ delivered ++ incoming := List.mem_append_right _ hin
      rcases seen_or_fresh (events.map SettlementEvent.batchId) hin with hseen | ⟨x, hx, hid⟩
      · obtain ⟨y, hy, hid⟩ := List.mem_map.mp hseen
        exact Or.inr (hone y (List.mem_append_left _ (h.mem_delivered hy)) e hleft hid ▸ hy)
      · have hmem : x ∈ delivered ++ incoming := List.mem_append_right _ (freshEvents_subset hx).1
        exact Or.inl (hone x hmem e hleft hid ▸ hx)

theorem addEvents (h : Observed delivered events) (hone : OneEach (delivered ++ incoming)) :
    Observed (delivered ++ incoming) (DarkPool.addEvents events incoming) := by
  have htrans : ∀ a b c, NotOlder a b → NotOlder b c → NotOlder a c := fun _ _ _ hab hbc => hbc.trans hab
  have hset := h.toFinset_fresh hone
  have hnodup : ((freshEvents (events.map SettlementEvent.batchId) incoming ++ events).map
      SettlementEvent.batchId).Nodup := by
    rw [List.map_append]
    refine List.Nodup.append (nodup_freshEvents _ _) h.unique ?_
    intro id hid hin
    obtain ⟨e, he, rfl⟩ := List.mem_map.mp hid
    exact (freshEvents_subset he).2 hin
  unfold DarkPool.addEvents
  simp only
  split
  next hnone =>
    rw [List.eq_nil_of_length_eq_zero hnone, List.nil_append] at hset
    refine ⟨h.newest, h.unique, ?_⟩
    rw [List.toFinset_append]
    exact h.first.union htrans (hset ▸ FirstK.self h.first.card_le)
  next =>
    have hsorted : (sortBy cmpNewest (freshEvents (events.map SettlementEvent.batchId) incoming ++ events)).Pairwise
        NotOlder := (sortBy_pairwise cmpNewest_nonpos_iff _).imp (fun hle => hle)
    have hperm := sortBy_perm cmpNewest (freshEvents (events.map SettlementEvent.batchId) incoming ++ events)
    have hunique := (hperm.map SettlementEvent.batchId).nodup_iff.mpr hnodup
    have htake := List.take_sublist settlementEventsCap
      (sortBy cmpNewest (freshEvents (events.map SettlementEvent.batchId) incoming ++ events))
    refine ⟨hsorted.sublist htake, hunique.sublist (htake.map _), ?_⟩
    rw [List.toFinset_append]
    refine h.first.union htrans ?_
    rw [← hset, ← List.toFinset_eq_of_perm _ _ hperm]
    exact FirstK.take_of_nodup (hunique.of_map _) hsorted

theorem observeAll {reports : List (List SettlementEvent)} (hone : OneEach reports.flatten) :
    Observed reports.flatten (DarkPool.observeAll reports) := by
  induction reports using List.reverseRecOn with
  | nil => exact empty
  | append_singleton reports incoming ih =>
    rw [List.flatten_append, List.flatten_singleton] at hone ⊢
    rw [DarkPool.observeAll, List.foldl_append]
    exact (ih fun a ha b hb => hone a (List.mem_append_left _ ha) b (List.mem_append_left _ hb)).addEvents hone

end Observed

section Results

variable {reports reports' : List (List SettlementEvent)}

/-- However the events are reported, in whatever order and however often: the store lists each batch once, newest
first, and leaves out an event only when it is full of events that are not older. -/
theorem settlementStore_newest (hone : OneEach reports.flatten) :
    (observeAll reports).Pairwise NotOlder ∧ ((observeAll reports).map SettlementEvent.batchId).Nodup ∧
      (observeAll reports).length ≤ settlementEventsCap ∧ (∀ e ∈ observeAll reports, e ∈ reports.flatten) ∧
      ∀ e ∈ reports.flatten, e ∉ observeAll reports →
        (observeAll reports).length = settlementEventsCap ∧
          ∀ a ∈ observeAll reports, e.timestampUnix ≤ a.timestampUnix := by
  have h := Observed.observeAll hone
  have hcard := List.toFinset_card_of_nodup h.nodup
  refine ⟨h.newest, h.unique, hcard ▸ h.first.card_le, fun e he => h.mem_delivered he, fun e he hout => ?_⟩
  have hleft : e ∉ (observeAll reports).toFinset := fun hin => hout (List.mem_toFinset.mp hin)
  refine ⟨hcard ▸ h.first.card_eq (List.mem_toFinset.mpr he) hleft, fun a ha => ?_⟩
  exact h.first.before a (List.mem_toFinset.mpr ha) e (List.mem_toFinset.mpr he) hleft

/-- Watchers that have seen the same events show the same list, where no two events have one time. -/
theorem settlementStore_converges (hone : OneEach reports.flatten)
    (hsame : ∀ e, e ∈ reports'.flatten ↔ e ∈ reports.flatten)
    (htimes : ∀ a ∈ reports.flatten, ∀ b ∈ reports.flatten, a.timestampUnix = b.timestampUnix → a = b) :
    observeAll reports' = observeAll reports := by
  have h := Observed.observeAll hone
  have h' := Observed.observeAll fun a ha b hb => hone a ((hsame a).mp ha) b ((hsame b).mp hb)
  have hset : reports'.flatten.toFinset = reports.flatten.toFinset := by
    ext e
    rw [List.mem_toFinset, List.mem_toFinset, hsame]
  have hshown : (observeAll reports').toFinset = (observeAll reports).toFinset := by
    refine FirstK.unique_of_antisymm ?_ (hset ▸ h'.first) h.first
    intro a ha b hb hab hba
    exact htimes a (List.mem_toFinset.mp ha) b (List.mem_toFinset.mp hb) (le_antisymm hba hab)
  have hperm : (observeAll reports').Perm (observeAll reports) :=
    (List.perm_ext_iff_of_nodup h'.nodup h.nodup).mpr fun e => by rw [← List.mem_toFinset, hshown, List.mem_toFinset]
  refine hperm.eq_of_pairwise ?_ h'.newest h.newest
  intro a b ha hb hab hba
  have ha := h.mem_delivered (hperm.mem_iff.mp ha)
  exact htimes a ha b (h.mem_delivered hb) (le_antisymm hba hab)

end Results

namespace Scenario

def observedEarly : SettlementEvent := ⟨[], [], 5⟩

def observedLate : SettlementEvent := ⟨[Fin.last 65535], [], 7⟩

theorem observed_oneEach : OneEach [[observedEarly], [observedLate, observedEarly]].flatten := by
  unfold OneEach
  decide

end Scenario

open Scenario in
theorem settlementStore_newest_pair :
    (observeAll [[observedEarly], [observedLate, observedEarly]]).length ≤ settlementEventsCap :=
  (settlementStore_newest observed_oneEach).2.2.1

open Scenario in
theorem settlementStore_converges_pair :
    observeAll [[observedLate], [observedEarly]] = observeAll [[observedEarly], [observedLate, observedEarly]] := by
  refine settlementStore_converges observed_oneEach (fun e => ?_) (by decide)
  simp [or_comm]

end DarkPool
