import Mathlib.Data.Prod.Lex
import DarkPool.Front
import DarkPool.Lib.FirstK
import DarkPool.Lib.Table

namespace DarkPool

structure AuctionSummary where
  auctionId : JsString
  pair : JsString
  clearingPrice : JsString
  matchedVolume : JsString
  matchCount : Int
  timestampUnix : Int
  deriving DecidableEq

/-- An auction as the live stream sends it. -/
structure AuctionEvent where
  auctionId : JsString
  pair : JsString
  clearingPrice : JsString
  matchedVolume : JsString
  matchCount : Int
  timestampUnix : Int
  deriving DecidableEq

def maxRetainedAuctions : Nat := 200

structure FeedState where
  byId : Table JsString AuctionSummary

def emptyFeed : FeedState := ⟨∅⟩

def auctionEventToSummary (event : AuctionEvent) : AuctionSummary where
  auctionId := event.auctionId
  pair := event.pair
  clearingPrice := event.clearingPrice
  matchedVolume := event.matchedVolume
  matchCount := event.matchCount
  timestampUnix := event.timestampUnix

/-- Newest first; the id breaks ties. -/
def cmpDesc (a b : AuctionSummary) : Int :=
  if a.timestampUnix = b.timestampUnix then
    if JsString.lt a.auctionId b.auctionId then 1 else if JsString.lt b.auctionId a.auctionId then -1 else 0
  else if b.timestampUnix < a.timestampUnix then -1 else 1

def prune (map : Table JsString AuctionSummary) : Table JsString AuctionSummary :=
  if map.entries.length ≤ maxRetainedAuctions then map
  else ((sortBy cmpDesc map.values).take maxRetainedAuctions).foldl (fun m a => m.insert a.auctionId a) ∅

/-- A row is never replaced by an older one. -/
def mergeSummary (next : Table JsString AuctionSummary) (s : AuctionSummary) : Table JsString AuctionSummary :=
  match next.lookup s.auctionId with
  | some existing => if s.timestampUnix < existing.timestampUnix then next else next.insert s.auctionId s
  | none => next.insert s.auctionId s

def mergeHistory (state : FeedState) (summaries : List AuctionSummary) : FeedState :=
  if summaries.length = 0 then state else ⟨prune (summaries.foldl mergeSummary state.byId)⟩

def addLive (state : FeedState) (event : AuctionEvent) : FeedState :=
  let summary := auctionEventToSummary event
  ⟨prune (state.byId.insert summary.auctionId summary)⟩

def selectAuctions (state : FeedState) (limit : Int) : List AuctionSummary :=
  let sorted := sortBy cmpDesc state.byId.values
  if 0 < limit then sorted.take limit.toNat else sorted

/-- What feeds the tape: a page of history, or one auction of the stream. -/
inductive FeedCall
  | mergeHistory (summaries : List AuctionSummary)
  | addLive (event : AuctionEvent)

namespace FeedCall

def apply (state : FeedState) : FeedCall → FeedState
  | mergeHistory summaries => DarkPool.mergeHistory state summaries
  | addLive event => DarkPool.addLive state event

def delivers : FeedCall → List AuctionSummary
  | mergeHistory summaries => summaries
  | addLive event => [auctionEventToSummary event]

end FeedCall

def runFeed (calls : List FeedCall) : FeedState := calls.foldl FeedCall.apply emptyFeed

namespace AuctionSummary

/-- What the tape is sorted by. -/
def key (a : AuctionSummary) : (ℤ ×ₗ JsString)ᵒᵈ := OrderDual.toDual (toLex (a.timestampUnix, a.auctionId))

def Newer (a b : AuctionSummary) : Prop := a.key < b.key

end AuctionSummary

theorem cmpDesc_nonpos_iff (a b : AuctionSummary) : cmpDesc a b ≤ 0 ↔ a.key ≤ b.key := by
  rw [AuctionSummary.key, AuctionSummary.key, OrderDual.toDual_le_toDual, Prod.Lex.toLex_le_toLex]
  unfold cmpDesc
  split
  next heq =>
    simp only [JsString.lt_iff]
    split
    next hlt => simp [heq, hlt]
    next hnlt =>
      have hle : b.auctionId ≤ a.auctionId := not_lt.mp hnlt
      split <;> simp [heq, hle]
  next hne =>
    split
    next hlt => simp [hlt]
    next hnlt =>
      have hgt : a.timestampUnix < b.timestampUnix := lt_of_le_of_ne (not_lt.mp hnlt) hne
      simp [hgt.not_gt, Ne.symm hne]

/-- No two auctions of the set share an id. -/
def DistinctIds (S : Finset AuctionSummary) : Prop := ∀ a ∈ S, ∀ b ∈ S, a.auctionId = b.auctionId → a = b

/-- The map holds exactly these auctions, each under its id. -/
structure FeedHolds (map : Table JsString AuctionSummary) (A : Finset AuctionSummary) : Prop where
  keyed : ∀ {k a}, map.lookup k = some a → a.auctionId = k
  values : map.values.toFinset = A

namespace FeedHolds

variable {map : Table JsString AuctionSummary} {A S : Finset AuctionSummary} {s : AuctionSummary}

theorem empty : FeedHolds ∅ ∅ where
  keyed h := by simp at h
  values := rfl

theorem mem (h : FeedHolds map A) {a : AuctionSummary} : a ∈ A ↔ map.lookup a.auctionId = some a := by
  rw [← h.values, List.mem_toFinset, Table.mem_values]
  constructor
  · rintro ⟨k, hk⟩
    exact h.keyed hk ▸ hk
  · exact fun ha => ⟨_, ha⟩

theorem insert (h : FeedHolds map A) (hs : ∀ a ∈ A, a.auctionId = s.auctionId → a = s) :
    FeedHolds (map.insert s.auctionId s) (Insert.insert s A) where
  keyed := by
    intro k a ha
    rw [Table.lookup_insert_eq] at ha
    split at ha
    next heq => rw [← Option.some.inj ha, heq]
    next => exact h.keyed ha
  values := by
    ext a
    rw [List.mem_toFinset, Table.mem_values, Finset.mem_insert, h.mem]
    constructor
    · rintro ⟨k, hk⟩
      rw [Table.lookup_insert_eq] at hk
      split at hk
      next => exact Or.inl (Option.some.inj hk).symm
      next => exact Or.inr (h.keyed hk ▸ hk)
    · rintro (rfl | ha)
      · exact ⟨a.auctionId, by rw [Table.lookup_insert_eq, if_pos rfl]⟩
      · refine ⟨a.auctionId, ?_⟩
        rw [Table.lookup_insert_eq]
        split
        next heq => rw [hs a (h.mem.mpr ha) heq]
        next => exact ha

theorem foldl_insert (h : FeedHolds map A) {rows : List AuctionSummary} (hS : DistinctIds S) (hA : A ⊆ S)
    (hrows : ∀ s ∈ rows, s ∈ S) :
    FeedHolds (rows.foldl (fun m a => m.insert a.auctionId a) map) (A ∪ rows.toFinset) := by
  induction rows generalizing map A with
  | nil => simpa using h
  | cons s rows ih =>
    have hs := hrows s List.mem_cons_self
    have hstep := h.insert (fun a ha heq => hS a (hA ha) s hs heq)
    have hrest := ih hstep (Finset.insert_subset hs hA) (fun a ha => hrows a (List.mem_cons_of_mem s ha))
    rw [List.toFinset_cons, Finset.union_insert, ← Finset.insert_union]
    exact hrest

/-- Where the contents are fixed no row is older than the one it replaces. -/
theorem mergeSummary_eq (h : FeedHolds map A) (hs : ∀ a ∈ A, a.auctionId = s.auctionId → a = s) :
    mergeSummary map s = map.insert s.auctionId s := by
  unfold mergeSummary
  split
  next existing hex =>
    have hid := h.keyed hex
    have hsame : existing = s := hs existing (h.mem.mpr (hid.symm ▸ hex)) hid
    rw [hsame, if_neg (lt_irrefl _)]
  next => rfl

theorem foldl_mergeSummary (h : FeedHolds map A) {rows : List AuctionSummary} (hS : DistinctIds S) (hA : A ⊆ S)
    (hrows : ∀ s ∈ rows, s ∈ S) :
    rows.foldl mergeSummary map = rows.foldl (fun m a => m.insert a.auctionId a) map := by
  induction rows generalizing map A with
  | nil => rfl
  | cons s rows ih =>
    have hs := hrows s List.mem_cons_self
    have hown : ∀ a ∈ A, a.auctionId = s.auctionId → a = s := fun a ha heq => hS a (hA ha) s hs heq
    rw [List.foldl_cons, List.foldl_cons, h.mergeSummary_eq hown]
    exact ih (h.insert hown) (Finset.insert_subset hs hA) (fun a ha => hrows a (List.mem_cons_of_mem s ha))

/-- The rows of the map in the order of the tape. -/
theorem pairwise_newer (h : FeedHolds map A) : (sortBy cmpDesc map.values).Pairwise AuctionSummary.Newer := by
  have hids : ((sortBy cmpDesc map.values).map AuctionSummary.auctionId).Nodup :=
    ((sortBy_perm cmpDesc map.values).map _).symm.nodup (Table.values_map_nodup h.keyed)
  have hne := List.pairwise_map.mp hids
  refine ((sortBy_pairwise cmpDesc_nonpos_iff map.values).and hne).imp ?_
  rintro a b ⟨hle, hid⟩
  refine lt_of_le_of_ne hle (fun heq => hid ?_)
  exact congrArg (fun k => (ofLex (OrderDual.ofDual k)).2) heq

theorem toFinset_sortBy (h : FeedHolds map A) : (sortBy cmpDesc map.values).toFinset = A := by
  rw [List.toFinset_eq_of_perm _ _ (sortBy_perm cmpDesc map.values), h.values]

/-- Pruning keeps the newest rows. -/
theorem prune (h : FeedHolds map A) (hS : DistinctIds S) (hA : A ⊆ S) :
    ∃ B, FirstK AuctionSummary.Newer maxRetainedAuctions A B ∧ FeedHolds (prune map) B := by
  unfold DarkPool.prune
  split
  next hfew =>
    have hcard : A.card ≤ maxRetainedAuctions := by
      rw [← h.values]
      refine (List.toFinset_card_le _).trans ?_
      rwa [Table.values, List.length_map]
    exact ⟨A, ⟨Finset.Subset.refl A, (min_eq_right hcard).symm, fun _ _ s hs hout => absurd hs hout⟩, h⟩
  next =>
    have hfirst := FirstK.take (k := maxRetainedAuctions) (fun a => lt_irrefl a.key) h.pairwise_newer
    rw [h.toFinset_sortBy] at hfirst
    have hrows : ∀ s ∈ (sortBy cmpDesc map.values).take maxRetainedAuctions, s ∈ S :=
      fun s hs => hA (hfirst.subset (List.mem_toFinset.mpr hs))
    have hheld := empty.foldl_insert hS (Finset.empty_subset S) hrows
    rw [Finset.empty_union] at hheld
    exact ⟨_, hfirst, hheld⟩

end FeedHolds

/-- The feed holds the newest of what was delivered. -/
def FeedState.Shows (state : FeedState) (D : Finset AuctionSummary) : Prop :=
  ∃ A, FirstK AuctionSummary.Newer maxRetainedAuctions D A ∧ FeedHolds state.byId A

theorem FeedState.Shows.apply {state : FeedState} {D S : Finset AuctionSummary} (h : state.Shows D) (hS : DistinctIds S)
    (hD : D ⊆ S) {call : FeedCall} (hcall : ∀ a ∈ call.delivers, a ∈ S) :
    (call.apply state).Shows (D ∪ call.delivers.toFinset) := by
  obtain ⟨A, hfirst, hheld⟩ := h
  have hA : A ⊆ S := hfirst.subset.trans hD
  -- Both calls insert what they deliver and prune.
  have hpruned : ∀ rows : List AuctionSummary, (∀ a ∈ rows, a ∈ S) →
      FeedState.Shows ⟨prune (rows.foldl (fun m a => m.insert a.auctionId a) state.byId)⟩ (D ∪ rows.toFinset) := by
    intro rows hrows
    have hall : A ∪ rows.toFinset ⊆ S :=
      Finset.union_subset hA (fun a ha => hrows a (List.mem_toFinset.mp ha))
    obtain ⟨B, hB, hheldB⟩ := (hheld.foldl_insert hS hA hrows).prune hS hall
    exact ⟨B, hfirst.union (fun a b c => lt_trans) hB, hheldB⟩
  cases call with
  | mergeHistory summaries =>
    simp only [FeedCall.apply, FeedCall.delivers, mergeHistory] at hcall ⊢
    split
    next hnil =>
      rw [List.eq_nil_of_length_eq_zero hnil, List.toFinset_nil, Finset.union_empty]
      exact ⟨A, hfirst, hheld⟩
    next =>
      rw [hheld.foldl_mergeSummary hS hA hcall]
      exact hpruned summaries hcall
  | addLive event => exact hpruned [auctionEventToSummary event] hcall

theorem shows_runFeed {S : Finset AuctionSummary} (hS : DistinctIds S) {calls : List FeedCall}
    (hcalls : ∀ a ∈ calls.flatMap FeedCall.delivers, a ∈ S) :
    (runFeed calls).Shows (calls.flatMap FeedCall.delivers).toFinset := by
  induction calls using List.reverseRecOn with
  | nil => exact ⟨∅, FirstK.empty, FeedHolds.empty⟩
  | append_singleton calls call ih =>
    rw [List.flatMap_append, List.flatMap_singleton] at hcalls ⊢
    have hbefore : ∀ a ∈ calls.flatMap FeedCall.delivers, a ∈ S := fun a ha => hcalls a (List.mem_append_left _ ha)
    rw [List.toFinset_append, runFeed, List.foldl_append]
    exact (ih hbefore).apply hS (fun a ha => hbefore a (List.mem_toFinset.mp ha))
      (fun a ha => hcalls a (List.mem_append_right _ ha))

/-- However a set of auctions with distinct ids is delivered, in pages of history and live, in any order and
any number of times: the tape shows its newest two hundred, or all of it, newest first. -/
theorem selectAuctions_converges (S : Finset AuctionSummary) (hS : DistinctIds S) (calls calls' : List FeedCall)
    (h : ∀ a, a ∈ calls.flatMap FeedCall.delivers ↔ a ∈ S) (h' : ∀ a, a ∈ calls'.flatMap FeedCall.delivers ↔ a ∈ S) :
    selectAuctions (runFeed calls) 0 = selectAuctions (runFeed calls') 0 ∧
      (selectAuctions (runFeed calls) 0).Pairwise
        (fun a b => toLex (b.timestampUnix, b.auctionId) < toLex (a.timestampUnix, a.auctionId)) ∧
      (selectAuctions (runFeed calls) 0).length = min 200 S.card ∧
      (∀ a ∈ selectAuctions (runFeed calls) 0, a ∈ S ∧ ∀ b ∈ S, b ∉ selectAuctions (runFeed calls) 0 →
        toLex (b.timestampUnix, b.auctionId) < toLex (a.timestampUnix, a.auctionId)) := by
  have hshows : ∀ cs : List FeedCall, (∀ a, a ∈ cs.flatMap FeedCall.delivers ↔ a ∈ S) → (runFeed cs).Shows S := by
    intro cs hcs
    have hset : (cs.flatMap FeedCall.delivers).toFinset = S := by
      ext a
      rw [List.mem_toFinset, hcs]
    exact hset ▸ shows_runFeed hS (fun a ha => (hcs a).mp ha)
  obtain ⟨A, hfirst, hheld⟩ := hshows calls h
  obtain ⟨A', hfirst', hheld'⟩ := hshows calls' h'
  obtain rfl : A' = A := hfirst'.unique (fun a b hab hba => lt_asymm hab hba) hfirst
  have hsorted := hheld.pairwise_newer
  have hset := hheld.toFinset_sortBy
  refine ⟨?_, hsorted, ?_, ?_⟩
  · have hnodup : ∀ {l : List AuctionSummary}, l.Pairwise AuctionSummary.Newer → l.Nodup := by
      intro l hl
      refine List.Pairwise.imp ?_ hl
      rintro a _ hab rfl
      exact lt_irrefl _ hab
    have hperm : (sortBy cmpDesc (runFeed calls).byId.values).Perm (sortBy cmpDesc (runFeed calls').byId.values) :=
      List.perm_of_nodup_nodup_toFinset_eq (hnodup hsorted) (hnodup hheld'.pairwise_newer)
        (hset.trans hheld'.toFinset_sortBy.symm)
    exact hperm.eq_of_pairwise (fun a b _ _ hab hba => absurd hba (lt_asymm hab)) hsorted hheld'.pairwise_newer
  · have hnodup : (sortBy cmpDesc (runFeed calls).byId.values).Nodup := by
      refine List.Pairwise.imp ?_ hsorted
      rintro a _ hab rfl
      exact lt_irrefl _ hab
    exact (List.toFinset_card_of_nodup hnodup).symm.trans ((congrArg Finset.card hset).trans hfirst.card)
  · intro a ha
    have hmem : ∀ b, b ∈ selectAuctions (runFeed calls) 0 ↔ b ∈ A' := fun b => by rw [← hset, List.mem_toFinset]; rfl
    refine ⟨hfirst.subset ((hmem a).mp ha), fun b hb hout => ?_⟩
    exact hfirst.before a ((hmem a).mp ha) b hb (fun hin => hout ((hmem b).mpr hin))

namespace Scenario

def morning : AuctionSummary := ⟨[97], [], [], [], 2, 100⟩

def noon : AuctionSummary := ⟨[98], [], [], [], 3, 200⟩

def noonLive : AuctionEvent := ⟨[98], [], [], [], 3, 200⟩

end Scenario

open Scenario in
theorem selectAuctions_converges_live_first :
    selectAuctions (runFeed [.addLive noonLive, .mergeHistory [morning, noon]]) 0 =
      selectAuctions (runFeed [.mergeHistory [noon], .mergeHistory [], .mergeHistory [morning, morning]]) 0 :=
  (selectAuctions_converges {morning, noon} (by unfold DistinctIds; decide) _ _
    (fun a => by simp [FeedCall.delivers, auctionEventToSummary, noonLive, noon]; tauto)
    (fun a => by simp [FeedCall.delivers, or_comm])).1

end DarkPool
