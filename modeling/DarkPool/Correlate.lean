import DarkPool.Front
import DarkPool.Lib.GreedyMatching
import DarkPool.Lib.Table

namespace DarkPool

/-- An on-chain `BatchSettled` occurrence, as captured by the watcher. -/
structure SettlementEvent where
  batchId : JsString
  txHash : JsString
  timestampUnix : Int
  deriving DecidableEq

/-- Anything that names an auction and when it happened. -/
structure SettlementAnchor where
  auctionId : JsString
  timestampUnix : Int
  deriving DecidableEq

def settlementWindowSeconds : Int := 30

def absDiff (a b : Int) : Int := if b < a then a - b else b - a

structure Candidate where
  anchor : SettlementAnchor
  event : SettlementEvent
  dist : Int

/-- One turn of the loops that keep the earliest occurrence of every id. -/
def keepEarliest {α : Type} (id : α → JsString) (time : α → Int) (byId : Table JsString α) (x : α) : Table JsString α :=
  match byId.lookup (id x) with
  | some prev => if time x < time prev then byId.insert (id x) x else byId
  | none => byId.insert (id x) x

def dedupeAnchors (anchors : List SettlementAnchor) : List SettlementAnchor :=
  (anchors.foldl (fun byId anchor => if anchor.auctionId ≠ [] then
      keepEarliest SettlementAnchor.auctionId SettlementAnchor.timestampUnix byId anchor
    else byId) ∅).values

def dedupeEvents (events : List SettlementEvent) : List SettlementEvent :=
  (events.foldl (keepEarliest SettlementEvent.batchId SettlementEvent.timestampUnix) ∅).values

def cmpCandidate (a b : Candidate) : Int :=
  cmpOr (cmpBigint a.dist b.dist) <|
  cmpOr (cmpBigint a.anchor.timestampUnix b.anchor.timestampUnix) <|
  cmpOr (cmpString a.anchor.auctionId b.anchor.auctionId) <|
  cmpOr (cmpBigint a.event.timestampUnix b.event.timestampUnix) <|
  cmpString a.event.batchId b.event.batchId

/-- The pairs of an auction and an event that lie within the window. -/
def candidates (anchors : List SettlementAnchor) (events : List SettlementEvent) (windowSeconds : Int) :
    List Candidate :=
  anchors.flatMap (fun anchor => events.filterMap (fun event =>
    let dist := absDiff anchor.timestampUnix event.timestampUnix
    if dist ≤ windowSeconds then some ⟨anchor, event, dist⟩ else none))

/-- What the greedy scan has linked and claimed. -/
structure Correlation where
  links : Table JsString SettlementEvent
  claimedEvents : Finset JsString

def Correlation.link (s : Correlation) (c : Candidate) : Correlation :=
  if (s.links.lookup c.anchor.auctionId).isSome ∨ c.event.batchId ∈ s.claimedEvents then s
  else ⟨s.links.insert c.anchor.auctionId c.event, insert c.event.batchId s.claimedEvents⟩

def correlateSettlements (anchors : List SettlementAnchor) (events : List SettlementEvent) (windowSeconds : Int) :
    Table JsString SettlementEvent :=
  let uniqueAnchors := dedupeAnchors anchors
  let uniqueEvents := dedupeEvents events
  ((sortBy cmpCandidate (candidates uniqueAnchors uniqueEvents windowSeconds)).foldl Correlation.link ⟨∅, ∅⟩).links

/-- The table holds the earliest of every id that occurs in the list. -/
structure HoldsEarliest {α : Type} (id : α → JsString) (time : α → Int) (xs : List α) (byId : Table JsString α) :
    Prop where
  sound : ∀ {k x}, byId.lookup k = some x → id x = k ∧ x ∈ xs ∧ ∀ y ∈ xs, id y = k → time x ≤ time y
  complete : ∀ y ∈ xs, ∃ x, byId.lookup (id y) = some x

namespace HoldsEarliest

variable {α : Type} {id : α → JsString} {time : α → Int} {xs ys : List α} {byId byId' : Table JsString α}

theorem empty : HoldsEarliest id time [] ∅ where
  sound h := by simp at h
  complete _ h := absurd h List.not_mem_nil

/-- The new row takes the place of an id's row: it is as early as all of them. -/
theorem insert (h : HoldsEarliest id time xs byId) {x : α} (hx : ∀ y ∈ xs, id y = id x → time x ≤ time y) :
    HoldsEarliest id time (xs ++ [x]) (byId.insert (id x) x) where
  sound := by
    intro k y hy
    rw [Table.lookup_insert_eq] at hy
    split at hy
    next heq =>
      cases Option.some.inj hy
      refine ⟨heq.symm, List.mem_append_right _ (List.mem_singleton_self _), fun z hz hid => ?_⟩
      rcases List.mem_append.mp hz with hz | hz
      · exact hx z hz (hid.trans heq)
      · rw [List.mem_singleton.mp hz]
    next hne =>
      obtain ⟨hid, hmem, hmin⟩ := h.sound hy
      refine ⟨hid, List.mem_append_left _ hmem, fun z hz hzk => ?_⟩
      rcases List.mem_append.mp hz with hz | hz
      · exact hmin z hz hzk
      · exact absurd (List.mem_singleton.mp hz ▸ hzk).symm hne
  complete := by
    intro y hy
    rw [Table.lookup_insert_eq]
    split
    next => exact ⟨x, rfl⟩
    next hne =>
      rcases List.mem_append.mp hy with hy | hy
      · exact h.complete y hy
      · exact absurd (congrArg id (List.mem_singleton.mp hy)) hne

theorem keepEarliest (h : HoldsEarliest id time xs byId) (x : α) :
    HoldsEarliest id time (xs ++ [x]) (keepEarliest id time byId x) := by
  unfold DarkPool.keepEarliest
  split
  next prev hprev =>
    obtain ⟨hid, hmem, hmin⟩ := h.sound hprev
    split
    next hlt => exact h.insert (fun y hy hyx => hlt.le.trans (hmin y hy hyx))
    next hnlt =>
      refine ⟨fun {k y} hy => ?_, fun y hy => ?_⟩
      · obtain ⟨hyk, hymem, hymin⟩ := h.sound hy
        refine ⟨hyk, List.mem_append_left _ hymem, fun z hz hzk => ?_⟩
        rcases List.mem_append.mp hz with hz | hz
        · exact hymin z hz hzk
        · rw [List.mem_singleton.mp hz] at hzk ⊢
          exact (hymin prev hmem (hid.trans hzk)).trans (not_lt.mp hnlt)
      · rcases List.mem_append.mp hy with hy | hy
        · exact h.complete y hy
        · exact ⟨prev, List.mem_singleton.mp hy ▸ hprev⟩
  next hnone =>
    refine h.insert (fun y hy hyx => ?_)
    obtain ⟨z, hz⟩ := h.complete y hy
    rw [hyx, hnone] at hz
    exact absurd hz nofun

theorem foldl (id : α → JsString) (time : α → Int) (xs : List α) :
    HoldsEarliest id time xs (xs.foldl (DarkPool.keepEarliest id time) ∅) := by
  induction xs using List.reverseRecOn with
  | nil => exact empty
  | append_singleton xs x ih =>
    rw [List.foldl_append]
    exact ih.keepEarliest x

/-- Where id and time determine an element, lists with the same elements leave the same rows. -/
theorem lookup_of_mem_iff (h : HoldsEarliest id time xs byId) (h' : HoldsEarliest id time ys byId')
    (hsame : ∀ x, x ∈ ys ↔ x ∈ xs) (hdet : ∀ x ∈ xs, ∀ y ∈ xs, id x = id y → time x = time y → x = y) {k : JsString}
    {x : α} (hx : byId.lookup k = some x) : byId'.lookup k = some x := by
  obtain ⟨hid, hmem, hmin⟩ := h.sound hx
  obtain ⟨z, hz⟩ := h'.complete x ((hsame x).mpr hmem)
  obtain ⟨hzid, hzmem, hzmin⟩ := h'.sound hz
  have htime : time x = time z :=
    le_antisymm (hmin z ((hsame z).mp hzmem) (hzid.trans hid)) (hzmin x ((hsame x).mpr hmem) rfl)
  rw [hdet x hmem z ((hsame z).mp hzmem) hzid.symm htime, ← hz, hid]

theorem nodup_values (h : HoldsEarliest id time xs byId) : byId.values.Nodup :=
  (Table.values_map_nodup (fun hx => (h.sound hx).1)).of_map

theorem values_perm (h : HoldsEarliest id time xs byId) (h' : HoldsEarliest id time ys byId')
    (hsame : ∀ x, x ∈ ys ↔ x ∈ xs) (hdet : ∀ x ∈ xs, ∀ y ∈ xs, id x = id y → time x = time y → x = y) :
    byId'.values.Perm byId.values := by
  refine (List.perm_ext_iff_of_nodup h'.nodup_values h.nodup_values).mpr (fun x => ?_)
  rw [Table.mem_values, Table.mem_values]
  constructor
  · rintro ⟨k, hk⟩
    refine ⟨k, h'.lookup_of_mem_iff h (fun y => (hsame y).symm) ?_ hk⟩
    exact fun y hy z hz => hdet y ((hsame y).mp hy) z ((hsame z).mp hz)
  · rintro ⟨k, hk⟩
    exact ⟨k, h.lookup_of_mem_iff h' hsame hdet hk⟩

end HoldsEarliest

/-- Id and time of a settlement determine it. -/
def EventsDetermined (events : List SettlementEvent) : Prop :=
  ∀ e ∈ events, ∀ e' ∈ events, e.batchId = e'.batchId → e.timestampUnix = e'.timestampUnix → e = e'

theorem holdsEarliest_anchors (anchors : List SettlementAnchor) :
    ∃ byId, dedupeAnchors anchors = byId.values ∧ HoldsEarliest SettlementAnchor.auctionId
      SettlementAnchor.timestampUnix (anchors.filter (fun a => decide (a.auctionId ≠ []))) byId := by
  refine ⟨_, ?_, HoldsEarliest.foldl _ _ _⟩
  rw [dedupeAnchors, List.foldl_filter]
  simp only [decide_eq_true_eq]

theorem dedupeAnchors_perm {anchors anchors' : List SettlementAnchor} (h : ∀ a, a ∈ anchors' ↔ a ∈ anchors) :
    (dedupeAnchors anchors').Perm (dedupeAnchors anchors) := by
  obtain ⟨byId, heq, hheld⟩ := holdsEarliest_anchors anchors
  obtain ⟨byId', heq', hheld'⟩ := holdsEarliest_anchors anchors'
  rw [heq, heq']
  refine hheld.values_perm hheld' (fun a => ?_) ?_
  · rw [List.mem_filter, List.mem_filter, h]
  · rintro ⟨id, time⟩ _ ⟨id', time'⟩ _ rfl rfl
    rfl

theorem dedupeEvents_perm {events events' : List SettlementEvent} (h : ∀ e, e ∈ events' ↔ e ∈ events)
    (hdet : EventsDetermined events) : (dedupeEvents events').Perm (dedupeEvents events) :=
  (HoldsEarliest.foldl _ _ events).values_perm (HoldsEarliest.foldl _ _ events') h hdet

theorem dedupeAnchors_nonempty {anchors : List SettlementAnchor} {a : SettlementAnchor}
    (h : a ∈ dedupeAnchors anchors) : a.auctionId ≠ [] := by
  obtain ⟨byId, heq, hheld⟩ := holdsEarliest_anchors anchors
  obtain ⟨k, hk⟩ := Table.mem_values.mp (heq ▸ h)
  exact of_decide_eq_true (List.mem_filter.mp (hheld.sound hk).2.1).2

theorem dedupeAnchors_id_inj {anchors : List SettlementAnchor} {a a' : SettlementAnchor}
    (h : a ∈ dedupeAnchors anchors) (h' : a' ∈ dedupeAnchors anchors) (hid : a.auctionId = a'.auctionId) : a = a' := by
  obtain ⟨byId, heq, hheld⟩ := holdsEarliest_anchors anchors
  obtain ⟨k, hk⟩ := Table.mem_values.mp (heq ▸ h)
  obtain ⟨k', hk'⟩ := Table.mem_values.mp (heq ▸ h')
  obtain rfl : k' = k := by rw [← (hheld.sound hk).1, ← (hheld.sound hk').1, hid]
  exact Option.some.inj (hk.symm.trans hk')

theorem dedupeEvents_id_inj {events : List SettlementEvent} {e e' : SettlementEvent} (h : e ∈ dedupeEvents events)
    (h' : e' ∈ dedupeEvents events) (hid : e.batchId = e'.batchId) : e = e' := by
  have hheld := HoldsEarliest.foldl SettlementEvent.batchId SettlementEvent.timestampUnix events
  obtain ⟨k, hk⟩ := Table.mem_values.mp h
  obtain ⟨k', hk'⟩ := Table.mem_values.mp h'
  obtain rfl : k' = k := by rw [← (hheld.sound hk).1, ← (hheld.sound hk').1, hid]
  exact Option.some.inj (hk.symm.trans hk')

theorem dedupeEvents_mem {events : List SettlementEvent} {e : SettlementEvent} (h : e ∈ dedupeEvents events) :
    e ∈ events := by
  obtain ⟨k, hk⟩ := Table.mem_values.mp h
  exact ((HoldsEarliest.foldl _ _ events).sound hk).2.1

theorem mem_candidates {anchors : List SettlementAnchor} {events : List SettlementEvent} {windowSeconds : Int}
    {c : Candidate} : c ∈ candidates anchors events windowSeconds ↔ c.anchor ∈ anchors ∧ c.event ∈ events ∧
      c.dist = absDiff c.anchor.timestampUnix c.event.timestampUnix ∧ c.dist ≤ windowSeconds := by
  unfold candidates
  simp only [List.mem_flatMap, List.mem_filterMap, Option.ite_none_right_eq_some, Option.some.injEq]
  constructor
  · rintro ⟨a, ha, e, he, hle, rfl⟩
    exact ⟨ha, he, rfl, hle⟩
  · rintro ⟨ha, he, hdist, hle⟩
    refine ⟨_, ha, _, he, hdist ▸ hle, ?_⟩
    rw [← hdist]

theorem candidates_perm {anchors anchors' : List SettlementAnchor} {events events' : List SettlementEvent}
    (ha : anchors'.Perm anchors) (he : events'.Perm events) (windowSeconds : Int) :
    (candidates anchors' events' windowSeconds).Perm (candidates anchors events windowSeconds) :=
  (ha.flatMap_right _).trans (List.Perm.flatMap_left _ (fun _ _ => he.filterMap _))

/-- What the candidates are sorted by. -/
def Candidate.key (c : Candidate) : ℤ ×ₗ ℤ ×ₗ JsString ×ₗ ℤ ×ₗ JsString :=
  toLex (c.dist, toLex (c.anchor.timestampUnix, toLex (c.anchor.auctionId,
    toLex (c.event.timestampUnix, c.event.batchId))))

theorem compares_cmpCandidate : Compares cmpCandidate Candidate.key :=
  (compares_cmpBigint Candidate.dist).cmpOr <|
  (compares_cmpBigint (fun c : Candidate => c.anchor.timestampUnix)).cmpOr <|
  (compares_cmpString (fun c : Candidate => c.anchor.auctionId)).cmpOr <|
  (compares_cmpBigint (fun c : Candidate => c.event.timestampUnix)).cmpOr <|
  compares_cmpString (fun c : Candidate => c.event.batchId)

/-- The comparator tells all candidates apart. -/
theorem Candidate.key_inj {anchors : List SettlementAnchor} {events : List SettlementEvent} {windowSeconds : Int}
    (hdet : EventsDetermined events) {c c' : Candidate} (hc : c ∈ candidates anchors (dedupeEvents events) windowSeconds)
    (hc' : c' ∈ candidates anchors (dedupeEvents events) windowSeconds) (hkey : c.key = c'.key) : c = c' := by
  obtain ⟨⟨id, time⟩, event, dist⟩ := c
  obtain ⟨⟨id', time'⟩, event', dist'⟩ := c'
  simp only [Candidate.key, EmbeddingLike.apply_eq_iff_eq, Prod.mk.injEq] at hkey
  obtain ⟨rfl, rfl, rfl, htime, hid⟩ := hkey
  obtain ⟨-, he, -, -⟩ := mem_candidates.mp hc
  obtain ⟨-, he', -, -⟩ := mem_candidates.mp hc'
  have hevent : event = event' := hdet _ (dedupeEvents_mem he) _ (dedupeEvents_mem he') hid htime
  rw [hevent]

/-- The scan has linked a greedy matching of the candidates it has seen. -/
structure Correlation.Scanned (s : Correlation) (seen : List Candidate) (M : Set Candidate) : Prop where
  greedy : GreedyMatching (fun c : Candidate => c.anchor.auctionId) (fun c => c.event.batchId)
    (fun c d => c.dist ≤ d.dist) seen M
  links : ∀ id e, s.links.lookup id = some e ↔ ∃ c ∈ M, c.anchor.auctionId = id ∧ c.event = e
  claimed : ∀ b, b ∈ s.claimedEvents ↔ ∃ c ∈ M, c.event.batchId = b

namespace Correlation.Scanned

variable {s : Correlation} {seen : List Candidate} {M : Set Candidate} {c : Candidate}

theorem start : Scanned ⟨∅, ∅⟩ [] ∅ where
  greedy := GreedyMatching.empty
  links _ _ := by simp
  claimed _ := by simp

theorem link (h : s.Scanned seen M) (hc : ∀ d ∈ seen, d.dist ≤ c.dist) :
    ∃ M', (s.link c).Scanned (seen ++ [c]) M' := by
  unfold Correlation.link
  split
  next htaken =>
    refine ⟨M, h.greedy.skip hc ?_, h.links, h.claimed⟩
    rcases htaken with hid | hbatch
    · obtain ⟨e, he⟩ := Option.isSome_iff_exists.mp hid
      obtain ⟨d, hd, hdid, -⟩ := (h.links _ _).mp he
      exact ⟨d, hd, Or.inl hdid⟩
    · obtain ⟨d, hd, hdid⟩ := (h.claimed _).mp hbatch
      exact ⟨d, hd, Or.inr hdid⟩
  next hfree =>
    obtain ⟨hid, hbatch⟩ := not_or.mp hfree
    have hleft : ∀ d ∈ M, d.anchor.auctionId ≠ c.anchor.auctionId := by
      intro d hd heq
      rw [(h.links _ _).mpr ⟨d, hd, heq, rfl⟩] at hid
      exact hid rfl
    have hright : ∀ d ∈ M, d.event.batchId ≠ c.event.batchId :=
      fun d hd heq => hbatch ((h.claimed _).mpr ⟨d, hd, heq⟩)
    refine ⟨insert c M, h.greedy.take hleft hright, fun id e => ?_, fun b => ?_⟩
    · rw [Table.lookup_insert_eq, Set.exists_mem_insert]
      split
      next heq =>
        subst heq
        have hnone : ¬∃ d ∈ M, d.anchor.auctionId = c.anchor.auctionId ∧ d.event = e :=
          fun ⟨d, hd, hdid, _⟩ => hleft d hd hdid
        simp [hnone]
      next hne => simp [h.links, Ne.symm hne]
    · rw [Finset.mem_insert, h.claimed, Set.exists_mem_insert, eq_comm]

theorem foldl {l : List Candidate} (hl : l.Pairwise (fun c d => c.dist ≤ d.dist)) :
    ∃ M, (l.foldl Correlation.link ⟨∅, ∅⟩).Scanned l M := by
  induction l using List.reverseRecOn with
  | nil => exact ⟨∅, start⟩
  | append_singleton l c ih =>
    obtain ⟨hbefore, -, hlast⟩ := List.pairwise_append.mp hl
    obtain ⟨M, hM⟩ := ih hbefore
    rw [List.foldl_append]
    exact hM.link (fun d hd => hlast d hd c (List.mem_singleton_self c))

end Correlation.Scanned

/-- The links are a greedy matching of the candidates. -/
theorem correlateSettlements_greedy (anchors : List SettlementAnchor) (events : List SettlementEvent)
    (windowSeconds : Int) : ∃ M, GreedyMatching (fun c : Candidate => c.anchor.auctionId) (fun c => c.event.batchId)
      (fun c d => c.dist ≤ d.dist)
      (sortBy cmpCandidate (candidates (dedupeAnchors anchors) (dedupeEvents events) windowSeconds)) M ∧
      ∀ id e, (correlateSettlements anchors events windowSeconds).lookup id = some e ↔
        ∃ c ∈ M, c.anchor.auctionId = id ∧ c.event = e := by
  have hsorted := (sortBy_pairwise compares_cmpCandidate.le
    (candidates (dedupeAnchors anchors) (dedupeEvents events) windowSeconds)).imp
    (fun {c d} h => Prod.Lex.monotone_fst _ _ h)
  obtain ⟨M, hM⟩ := Correlation.Scanned.foldl hsorted
  exact ⟨M, hM.greedy, hM.links⟩

theorem correlateSettlements_eq_of_mem_iff {anchors anchors' : List SettlementAnchor}
    {events events' : List SettlementEvent} (hanchors : ∀ a, a ∈ anchors' ↔ a ∈ anchors)
    (hevents : ∀ e, e ∈ events' ↔ e ∈ events) (hdet : EventsDetermined events) (windowSeconds : Int) :
    correlateSettlements anchors' events' windowSeconds = correlateSettlements anchors events windowSeconds := by
  have hperm := candidates_perm (dedupeAnchors_perm hanchors) (dedupeEvents_perm hevents hdet) windowSeconds
  have hsort := sortBy_eq_of_perm compares_cmpCandidate.le hperm.symm (fun c hc d hd => Candidate.key_inj hdet hc hd)
  simp only [correlateSettlements, hsort]

/-- Settlements are linked one to one and within the window, no auction and no settlement passes over a nearer
free partner, and neither the order of the two lists nor what they repeat matters. -/
theorem correlateSettlements_stable (anchors : List SettlementAnchor) (events : List SettlementEvent)
    (windowSeconds : Int) (hdet : EventsDetermined events) :
    (∀ id e, (correlateSettlements anchors events windowSeconds).lookup id = some e → id ≠ [] ∧
      e ∈ dedupeEvents events ∧ ∃ a ∈ dedupeAnchors anchors, a.auctionId = id ∧
        absDiff a.timestampUnix e.timestampUnix ≤ windowSeconds) ∧
    (∀ id id' e e', (correlateSettlements anchors events windowSeconds).lookup id = some e →
      (correlateSettlements anchors events windowSeconds).lookup id' = some e' → e.batchId = e'.batchId → id = id') ∧
    (∀ a ∈ dedupeAnchors anchors, ∀ e ∈ dedupeEvents events,
      absDiff a.timestampUnix e.timestampUnix ≤ windowSeconds →
      (correlateSettlements anchors events windowSeconds).lookup a.auctionId ≠ some e →
      (∃ e', (correlateSettlements anchors events windowSeconds).lookup a.auctionId = some e' ∧
        absDiff a.timestampUnix e'.timestampUnix ≤ absDiff a.timestampUnix e.timestampUnix) ∨
      (∃ a' ∈ dedupeAnchors anchors,
        (correlateSettlements anchors events windowSeconds).lookup a'.auctionId = some e ∧
        absDiff a'.timestampUnix e.timestampUnix ≤ absDiff a.timestampUnix e.timestampUnix)) ∧
    (∀ anchors' events', (∀ a, a ∈ anchors' ↔ a ∈ anchors) → (∀ e, e ∈ events' ↔ e ∈ events) →
      correlateSettlements anchors' events' windowSeconds = correlateSettlements anchors events windowSeconds) := by
  obtain ⟨M, hgreedy, hlinks⟩ := correlateSettlements_greedy anchors events windowSeconds
  have hcand : ∀ c ∈ M, c.anchor ∈ dedupeAnchors anchors ∧ c.event ∈ dedupeEvents events ∧
      c.dist = absDiff c.anchor.timestampUnix c.event.timestampUnix ∧ c.dist ≤ windowSeconds :=
    fun c hc => mem_candidates.mp (mem_sortBy.mp (hgreedy.mem c hc))
  refine ⟨?_, ?_, ?_, fun _ _ ha he => correlateSettlements_eq_of_mem_iff ha he hdet windowSeconds⟩
  · intro id e h
    obtain ⟨c, hc, rfl, rfl⟩ := (hlinks id e).mp h
    obtain ⟨ha, he, hdist, hle⟩ := hcand c hc
    exact ⟨dedupeAnchors_nonempty ha, he, c.anchor, ha, rfl, hdist ▸ hle⟩
  · intro id id' e e' h h' hbatch
    obtain ⟨c, hc, rfl, rfl⟩ := (hlinks id e).mp h
    obtain ⟨c', hc', rfl, rfl⟩ := (hlinks id' e').mp h'
    rw [hgreedy.right_inj c hc c' hc' hbatch]
  · intro a ha e he hle hnot
    let c : Candidate := ⟨a, e, absDiff a.timestampUnix e.timestampUnix⟩
    have hc : c ∈ sortBy cmpCandidate (candidates (dedupeAnchors anchors) (dedupeEvents events) windowSeconds) :=
      mem_sortBy.mpr (mem_candidates.mpr ⟨ha, he, rfl, hle⟩)
    rcases hgreedy.maximal c hc with hin | ⟨d, hd, hdist, hends⟩
    · exact absurd ((hlinks a.auctionId e).mpr ⟨c, hin, rfl, rfl⟩) hnot
    · obtain ⟨hda, hde, hdd, -⟩ := hcand d hd
      rw [hdd] at hdist
      rcases hends with hid | hbatch
      · obtain rfl : d.anchor = a := dedupeAnchors_id_inj hda ha hid
        exact Or.inl ⟨d.event, (hlinks _ _).mpr ⟨d, hd, rfl, rfl⟩, hdist⟩
      · obtain rfl : d.event = e := dedupeEvents_id_inj hde he hbatch
        exact Or.inr ⟨d.anchor, hda, (hlinks _ _).mpr ⟨d, hd, rfl, rfl⟩, hdist⟩

theorem correlateSettlements_stable_two :
    correlateSettlements [⟨[98], 107⟩, ⟨[97], 100⟩, ⟨[98], 107⟩] [⟨[1], [7], 103⟩] settlementWindowSeconds =
      correlateSettlements [⟨[97], 100⟩, ⟨[98], 107⟩] [⟨[1], [7], 103⟩] settlementWindowSeconds :=
  (correlateSettlements_stable [⟨[97], 100⟩, ⟨[98], 107⟩] [⟨[1], [7], 103⟩] settlementWindowSeconds
    (by unfold EventsDetermined; decide)).2.2.2 _ _ (fun a => by simp; tauto) (fun _ => Iff.rfl)

end DarkPool
