import DarkPool.Lib.Transition
import DarkPool.Siwe

namespace DarkPool

/-- The store between two calls. -/
structure NonceState where
  inner : NonceInner
  clock : Int

/-- A call on the store, with the reading of the clock under the lock. -/
inductive NonceCall
  | generateFor (clientKey nonce : String) (instant : Int)
  | consume (nonce : String) (instant : Int)
  | evictStale (instant : Int)
  | verify (login : SiweLogin) (now instant : Int)

namespace NonceCall

def instant : NonceCall → Int
  | generateFor _ _ instant | consume _ instant | evictStale instant | verify _ _ instant => instant

def apply (env : SiweEnv) (ttl : Nat) (inner : NonceInner) : NonceCall → NonceInner
  | generateFor clientKey nonce instant => (inner.generateFor clientKey nonce instant).2
  | consume nonce instant => (inner.consume ttl nonce instant).2
  | evictStale instant => inner.evictStale ttl instant
  | verify login now instant => (verifySiweMessage env ttl inner login now instant).2

/-- The clock never runs backwards. -/
def step (env : SiweEnv) (ttl : Nat) (s : NonceState) (call : NonceCall) : Option NonceState :=
  if s.clock ≤ call.instant then some ⟨call.apply env ttl s.inner, call.instant⟩ else none

/-- The nonce the call hands out, and when. -/
def issued (s : NonceState) : NonceCall → List (String × Int)
  | generateFor clientKey nonce instant =>
    match (s.inner.generateFor clientKey nonce instant).1 with
    | some nonce => [(nonce, instant)]
    | none => []
  | _ => []

/-- The nonce of a login that succeeds, and when. -/
def accepted (env : SiweEnv) (ttl : Nat) (s : NonceState) : NonceCall → List (String × Int)
  | verify login now instant =>
    match (verifySiweMessage env ttl s.inner login now instant).1, env.parse login.messageStr with
    | .ok _, .ok message => [(message.nonce, instant)]
    | _, _ => []
  | _ => []

/-- The nonce a call takes from the store, stale or not. A login turned away before has taken none. -/
def consumed (env : SiweEnv) (s : NonceState) : NonceCall → List String
  | consume nonce _ => if (s.inner.nonces.lookup nonce).isSome then [nonce] else []
  | verify login now _ =>
    match checkSiweMessage env login now with
    | .ok message => if (s.inner.nonces.lookup message.nonce).isSome then [message.nonce] else []
    | .error _ => []
  | _ => []

end NonceCall

/-- The counts of a table; who has none has no entry. -/
def Tracks (perIp : Table String Nat) (f : String → Nat) : Prop :=
  ∀ k, perIp.lookup k = if f k = 0 then none else some (f k)

theorem Tracks.decrementOwner {perIp : Table String Nat} {f g : String → Nat} {owner : String} (h : Tracks perIp f)
    (howner : f owner = g owner + 1) (hothers : ∀ k, k ≠ owner → f k = g k) : Tracks (decrementOwner perIp owner) g := by
  intro k
  have hcount : perIp.lookup owner = some (g owner + 1) := by rw [h owner, howner, if_neg (Nat.succ_ne_zero _)]
  simp only [DarkPool.decrementOwner, hcount, Nat.add_sub_cancel]
  split
  next hzero =>
    rw [Table.lookup_erase_eq]
    split
    next heq => simp [heq, hzero]
    next hne => rw [h k, hothers k hne]
  next hpos =>
    rw [Table.lookup_insert_eq]
    split
    next heq => simp [heq, hpos]
    next hne => rw [h k, hothers k hne]

theorem Tracks.increment {perIp : Table String Nat} {f g : String → Nat} {owner : String} (h : Tracks perIp f)
    (howner : g owner = f owner + 1) (hothers : ∀ k, k ≠ owner → f k = g k) :
    Tracks (perIp.insert owner ((perIp.lookup owner).getD 0 + 1)) g := by
  intro k
  rw [Table.lookup_insert_eq]
  split
  next heq =>
    subst heq
    rw [howner, if_neg (Nat.succ_ne_zero _), h k]
    split
    next hzero => simp [hzero]
    next => rfl
  next hne => rw [h k, hothers k hne]

/-- How many of the entries belong to an owner. -/
def countOwned (entries : List NonceEntry) (k : String) : Nat := entries.countP (fun e => e.owner = k)

theorem countOwned_cons (e : NonceEntry) (entries : List NonceEntry) (k : String) :
    countOwned (e :: entries) k = countOwned entries k + if e.owner = k then 1 else 0 := by
  simp [countOwned, List.countP_cons]

/-- The closure of `retain` keeps the counts right for what it keeps. -/
theorem Tracks.evict (ttl : Nat) (now : Int) (kept entries : List NonceEntry) {perIp : Table String Nat}
    (h : Tracks perIp (countOwned (kept ++ entries))) :
    Tracks (entries.foldl (fun perIp entry => if NonceInner.keeps ttl now entry then perIp
        else DarkPool.decrementOwner perIp entry.owner) perIp)
      (countOwned (kept ++ entries.filter (NonceInner.keeps ttl now))) := by
  induction entries generalizing perIp kept with
  | nil => exact h
  | cons e entries ih =>
    rw [List.foldl_cons, List.filter_cons]
    split
    next hkeep =>
      rw [List.append_cons] at h ⊢
      exact ih _ h
    next hdrop =>
      refine ih kept (h.decrementOwner ?_ ?_)
      · simp [countOwned]
        omega
      · intro k hne
        simp [countOwned, Ne.symm hne]

namespace NonceInner

variable {ttl : Nat} {inner : NonceInner}

def owned (inner : NonceInner) (k : String) : Nat := countOwned inner.nonces.values k

/-- The counts agree with the nonces, and both ceilings hold. -/
structure Balanced (inner : NonceInner) : Prop where
  tracks : Tracks inner.perIp inner.owned
  perIp : ∀ k, inner.owned k ≤ maxNoncesPerIp
  total : inner.nonces.entries.length ≤ maxNonces

theorem Balanced.empty : NonceInner.empty.Balanced where
  tracks _ := rfl
  perIp _ := Nat.zero_le _
  total := Nat.zero_le _

/-- A nonce is refused and nothing changes, or it is handed out. -/
theorem generateFor_cases (inner : NonceInner) (clientKey nonce : String) (now : Int) :
    inner.generateFor clientKey nonce now = (none, inner) ∨
      inner.generateFor clientKey nonce now = (some nonce, ⟨inner.nonces.insert nonce ⟨now, clientKey⟩,
        inner.perIp.insert clientKey ((inner.perIp.lookup clientKey).getD 0 + 1)⟩) ∧
      inner.nonces.entries.length < maxNonces ∧ (inner.perIp.lookup clientKey).getD 0 < maxNoncesPerIp := by
  unfold generateFor
  split
  next => exact Or.inl rfl
  next htotal =>
    split
    next => exact Or.inl rfl
    next hip => exact Or.inr ⟨rfl, not_le.mp htotal, not_le.mp hip⟩

theorem Balanced.generateFor (h : inner.Balanced) (clientKey : String) {nonce : String} (now : Int)
    (hfresh : inner.nonces.lookup nonce = none) : (inner.generateFor clientKey nonce now).2.Balanced := by
  rcases inner.generateFor_cases clientKey nonce now with heq | ⟨heq, htotal, hip⟩
  · rwa [heq]
  rw [heq]
  have hentries := AList.entries_insert_of_notMem (b := (⟨now, clientKey⟩ : NonceEntry))
    (AList.lookup_eq_none.mp hfresh)
  have howned : ∀ k, countOwned (Table.values (inner.nonces.insert nonce ⟨now, clientKey⟩)) k =
      inner.owned k + if clientKey = k then 1 else 0 := by
    intro k
    rw [Table.values, hentries, List.map_cons, countOwned_cons]
    rfl
  have hcount : (inner.perIp.lookup clientKey).getD 0 = inner.owned clientKey := by
    rw [h.tracks clientKey]
    split
    next hzero => simp [hzero]
    next => rfl
  refine ⟨h.tracks.increment ?_ ?_, fun k => ?_, ?_⟩
  · rw [owned, howned, if_pos rfl]
  · intro k hne
    have hk := howned k
    rw [if_neg (Ne.symm hne)] at hk
    exact hk.symm
  · rw [owned, howned]
    split
    next heq => rw [← heq]; omega
    next => exact h.perIp k
  · rw [hentries]
    exact htotal

theorem Balanced.consume (h : inner.Balanced) (nonce : String) (now : Int) :
    (inner.consume ttl nonce now).2.Balanced := by
  unfold NonceInner.consume
  split
  next entry hentry =>
    have hperm := Table.values_perm_erase hentry
    have howned : ∀ k, inner.owned k =
        countOwned (Table.values (inner.nonces.erase nonce)) k + if entry.owner = k then 1 else 0 := by
      intro k
      rw [← countOwned_cons]
      exact hperm.countP_eq _
    refine ⟨h.tracks.decrementOwner ?_ ?_, fun k => ?_, ?_⟩
    · rw [howned, if_pos rfl]
      rfl
    · intro k hne
      rw [howned, if_neg (Ne.symm hne)]
      rfl
    · have := howned k
      have := h.perIp k
      simp only [owned] at *
      omega
    · have hlength : inner.nonces.values.length = inner.nonces.entries.length := List.length_map _
      have hlength' : (Table.values (inner.nonces.erase nonce)).length = (inner.nonces.erase nonce).entries.length :=
        List.length_map _
      have := hperm.length_eq
      have := h.total
      simp only [List.length_cons] at *
      omega
  next => exact h

theorem Balanced.evictStale (h : inner.Balanced) (now : Int) : (inner.evictStale ttl now).Balanced := by
  have hvalues : (inner.evictStale ttl now).nonces.values = inner.nonces.values.filter (keeps ttl now) := by
    simp only [NonceInner.evictStale, Table.values, Table.retain, List.filter_map]
    rfl
  refine ⟨?_, fun k => ?_, ?_⟩
  · have htracks := Tracks.evict ttl now [] inner.nonces.values h.tracks
    rw [List.nil_append, ← hvalues] at htracks
    exact htracks
  · rw [owned, hvalues]
    exact List.filter_sublist.countP_le.trans (h.perIp k)
  · exact (List.length_filter_le _ _).trans h.total

end NonceInner

end DarkPool
