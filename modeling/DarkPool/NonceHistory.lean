import DarkPool.NonceRuns

namespace DarkPool

/-- What the store says of the nonces handed out so far, those logins were accepted with and those taken out. -/
structure NonceHistory (ttl : Nat) (s : NonceState) (issued accepted : List (String × Int)) (consumed : List String) :
    Prop where
  balanced : s.inner.Balanced
  stored : ∀ {n e}, s.inner.nonces.lookup n = some e → (n, e.created) ∈ issued ∧ n ∉ consumed ∧ e.created ≤ s.clock
  usable : ∀ {n c}, (n, c) ∈ issued → n ∉ consumed → s.clock - c ≤ ttl →
    ∃ owner, s.inner.nonces.lookup n = some ⟨c, owner⟩
  within : ∀ {n t}, (n, t) ∈ accepted → n ∈ consumed ∧ ∃ c, (n, c) ∈ issued ∧ c ≤ t ∧ t - c ≤ ttl
  once : (accepted.map Prod.fst).Nodup
  known : ∀ n ∈ consumed, ∃ c, (n, c) ∈ issued

namespace NonceHistory

variable {env : SiweEnv} {ttl : Nat} {s s' : NonceState} {issued accepted : List (String × Int)}
  {consumed : List String} {instant : Int}

theorem start (ttl : Nat) (clock : Int) : NonceHistory ttl ⟨NonceInner.empty, clock⟩ [] [] [] where
  balanced := NonceInner.Balanced.empty
  stored h := by simp [NonceInner.empty] at h
  usable h := absurd h List.not_mem_nil
  within h := absurd h List.not_mem_nil
  once := List.nodup_nil
  known _ h := absurd h List.not_mem_nil

/-- Time passes. -/
theorem tick (h : NonceHistory ttl s issued accepted consumed) (hle : s.clock ≤ instant) :
    NonceHistory ttl ⟨s.inner, instant⟩ issued accepted consumed where
  balanced := h.balanced
  stored hn := ⟨(h.stored hn).1, (h.stored hn).2.1, (h.stored hn).2.2.trans hle⟩
  usable hn hout httl := h.usable hn hout (by simp only at httl; omega)
  within := h.within
  once := h.once
  known := h.known

theorem evictStale (h : NonceHistory ttl s issued accepted consumed) (hle : s.clock ≤ instant) :
    NonceHistory ttl ⟨s.inner.evictStale ttl instant, instant⟩ issued accepted consumed where
  balanced := h.balanced.evictStale instant
  stored hn := (h.tick hle).stored (Table.lookup_of_retain hn)
  usable {n c} hn hout httl := by
    obtain ⟨owner, howner⟩ := (h.tick hle).usable hn hout httl
    exact ⟨owner, Table.lookup_retain_of_keep howner (decide_eq_true httl)⟩
  within := h.within
  once := h.once
  known := h.known

theorem generateFor (h : NonceHistory ttl s issued accepted consumed) (hle : s.clock ≤ instant)
    {clientKey nonce : String} (hnodup :
      ((issued ++ NonceCall.issued s (.generateFor clientKey nonce instant)).map Prod.fst).Nodup) :
    NonceHistory ttl ⟨(s.inner.generateFor clientKey nonce instant).2, instant⟩
      (issued ++ NonceCall.issued s (.generateFor clientKey nonce instant)) accepted consumed := by
  simp only [NonceCall.issued] at hnodup ⊢
  rcases s.inner.generateFor_cases clientKey nonce instant with heq | ⟨heq, -, -⟩
  · simp only [heq, List.append_nil]
    exact h.tick hle
  simp only [heq, List.map_append, List.map_cons, List.map_nil] at hnodup ⊢
  -- The nonce is new: not stored and not taken out before.
  have hnew : ∀ c, (nonce, c) ∉ issued := fun c hc => List.disjoint_of_nodup_append hnodup
    (List.mem_map_of_mem hc) (List.mem_singleton_self nonce)
  have hunspent : nonce ∉ consumed := fun hin => by
    obtain ⟨c, hc⟩ := h.known nonce hin
    exact hnew c hc
  have hunstored : s.inner.nonces.lookup nonce = none := by
    rw [Option.eq_none_iff_forall_ne_some]
    exact fun e he => hnew _ (h.stored he).1
  have htick := h.tick hle
  refine ⟨?_, fun {n e} hn => ?_, fun {n c} hn hout httl => ?_, fun {n t} hn => ?_, h.once, fun n hn => ?_⟩
  · have hbalanced := h.balanced.generateFor clientKey instant hunstored
    rwa [heq] at hbalanced
  · obtain ⟨rfl, rfl⟩ | ⟨-, hn⟩ := Table.lookup_insert_cases hn
    · exact ⟨List.mem_append_right _ (List.mem_singleton_self _), hunspent, le_refl _⟩
    · obtain ⟨hin, hrest⟩ := htick.stored hn
      exact ⟨List.mem_append_left _ hin, hrest⟩
  · rw [Table.lookup_insert_eq]
    rcases List.mem_append.mp hn with hn | hn
    · have hne : n ≠ nonce := fun heq => hnew c (heq ▸ hn)
      rw [if_neg hne]
      exact htick.usable hn hout httl
    · cases List.mem_singleton.mp hn
      exact ⟨clientKey, if_pos rfl⟩
  · obtain ⟨hin, c, hc, hle, httl⟩ := h.within hn
    exact ⟨hin, c, List.mem_append_left _ hc, hle, httl⟩
  · obtain ⟨c, hc⟩ := h.known n hn
    exact ⟨c, List.mem_append_left _ hc⟩

/-- A stored nonce is taken out; if it was fresh, a login may have been accepted with it. -/
theorem consume (h : NonceHistory ttl s issued accepted consumed) (hle : s.clock ≤ instant) {nonce : String}
    {entry : NonceEntry} (hentry : s.inner.nonces.lookup nonce = some entry) {logins : List (String × Int)}
    (hlogins : logins = [] ∨ logins = [(nonce, instant)] ∧ instant - entry.created ≤ ttl) :
    NonceHistory ttl ⟨(s.inner.consume ttl nonce instant).2, instant⟩ issued (accepted ++ logins)
      (consumed ++ [nonce]) := by
  have htick := h.tick hle
  obtain ⟨hissued, hunspent, hclock⟩ := htick.stored hentry
  have hnonces : (s.inner.consume ttl nonce instant).2.nonces = s.inner.nonces.erase nonce := by
    simp only [NonceInner.consume, hentry]
  have hlogin : ∀ {n t}, (n, t) ∈ logins → n = nonce ∧ t = instant ∧ instant - entry.created ≤ ttl := by
    intro n t hin
    rcases hlogins with rfl | ⟨rfl, httl⟩
    · simp at hin
    · cases List.mem_singleton.mp hin
      exact ⟨rfl, rfl, httl⟩
  refine ⟨h.balanced.consume nonce instant, fun {n e} hn => ?_, fun {n c} hn hout httl => ?_, fun {n t} hn => ?_, ?_,
    fun n hn => ?_⟩
  · rw [hnonces] at hn
    obtain ⟨hne, hn⟩ := Table.lookup_erase_cases hn
    obtain ⟨hin, hout, hclock⟩ := htick.stored hn
    exact ⟨hin, by simp [hout, hne], hclock⟩
  · rw [hnonces, Table.lookup_erase_eq]
    have hne : n ≠ nonce := fun heq => hout (by simp [heq])
    rw [if_neg hne]
    exact htick.usable hn (fun hin => hout (List.mem_append_left _ hin)) httl
  · rcases List.mem_append.mp hn with hn | hn
    · obtain ⟨hin, hrest⟩ := h.within hn
      exact ⟨List.mem_append_left _ hin, hrest⟩
    · obtain ⟨rfl, rfl, httl⟩ := hlogin hn
      exact ⟨List.mem_append_right _ (List.mem_singleton_self n), entry.created, hissued, hclock, httl⟩
  · rw [List.map_append, List.nodup_append']
    refine ⟨h.once, ?_, ?_⟩
    · rcases hlogins with rfl | ⟨rfl, -⟩ <;> simp
    · intro n hin hin'
      obtain ⟨⟨n₁, t₁⟩, hacc, rfl⟩ := List.mem_map.mp hin
      obtain ⟨⟨n₂, t₂⟩, hlog, rfl⟩ := List.mem_map.mp hin'
      obtain ⟨rfl, -, -⟩ := hlogin hlog
      exact hunspent (h.within hacc).1
  · rcases List.mem_append.mp hn with hn | hn
    · exact h.known n hn
    · exact ⟨entry.created, List.mem_singleton.mp hn ▸ hissued⟩

/-- A call that finds no nonce leaves the store as it is. -/
theorem consume_missing {inner : NonceInner} {nonce : String} (h : inner.nonces.lookup nonce = none) (ttl : Nat)
    (now : Int) : inner.consume ttl nonce now = (false, inner) := by
  simp only [NonceInner.consume, h]

theorem verify (h : NonceHistory ttl s issued accepted consumed) (hle : s.clock ≤ instant) (login : SiweLogin)
    (now : Int) :
    NonceHistory ttl ⟨(verifySiweMessage env ttl s.inner login now instant).2, instant⟩ issued
      (accepted ++ NonceCall.accepted env ttl s (.verify login now instant))
      (consumed ++ NonceCall.consumed env s (.verify login now instant)) := by
  simp only [NonceCall.accepted, NonceCall.consumed, verifySiweMessage]
  cases hcheck : checkSiweMessage env login now with
  | error e =>
    simp only [List.append_nil]
    exact h.tick hle
  | ok message =>
    have hparse := checkSiweMessage_parse hcheck
    cases hentry : s.inner.nonces.lookup message.nonce with
    | none =>
      simp only [hentry, consume_missing hentry, Bool.false_eq_true, if_false, List.append_nil, Option.isSome_none]
      exact h.tick hle
    | some entry =>
      have hfresh : (s.inner.consume ttl message.nonce instant).1 = decide (instant - entry.created ≤ ttl) := by
        simp only [NonceInner.consume, hentry]
      simp only [hparse, hentry, Option.isSome_some, if_true]
      by_cases httl : instant - entry.created ≤ ttl
      · simp only [hfresh, httl, decide_true, if_true]
        exact h.consume hle hentry (Or.inr ⟨rfl, httl⟩)
      · simp only [hfresh, httl, decide_false, Bool.false_eq_true, if_false]
        exact h.consume hle hentry (Or.inl rfl)

theorem step (h : NonceHistory ttl s issued accepted consumed) {call : NonceCall}
    (hstep : NonceCall.step env ttl s call = some s')
    (hnodup : ((issued ++ NonceCall.issued s call).map Prod.fst).Nodup) :
    NonceHistory ttl s' (issued ++ NonceCall.issued s call) (accepted ++ NonceCall.accepted env ttl s call)
      (consumed ++ NonceCall.consumed env s call) := by
  simp only [NonceCall.step, Option.ite_none_right_eq_some, Option.some.injEq] at hstep
  obtain ⟨hle, rfl⟩ := hstep
  cases call with
  | generateFor clientKey nonce instant =>
    simp only [NonceCall.accepted, NonceCall.consumed, List.append_nil]
    exact h.generateFor hle hnodup
  | consume nonce instant =>
    simp only [NonceCall.issued, NonceCall.accepted, NonceCall.consumed, List.append_nil]
    cases hentry : s.inner.nonces.lookup nonce with
    | none =>
      simp only [NonceCall.apply, NonceCall.instant, consume_missing hentry, Option.isSome_none, Bool.false_eq_true,
        if_false, List.append_nil]
      exact h.tick hle
    | some entry =>
      have htaken := h.consume hle hentry (Or.inl rfl)
      rwa [List.append_nil] at htaken
  | evictStale instant =>
    simp only [NonceCall.issued, NonceCall.accepted, NonceCall.consumed, List.append_nil]
    exact h.evictStale hle
  | verify login now instant =>
    simp only [NonceCall.issued, List.append_nil]
    exact h.verify hle login now

theorem run {clock : Int} {calls : List NonceCall}
    (hrun : Transition.run (NonceCall.step env ttl) ⟨NonceInner.empty, clock⟩ calls = some s)
    (hnodup : ((Transition.collect (NonceCall.step env ttl) NonceCall.issued ⟨NonceInner.empty, clock⟩ calls).map
      Prod.fst).Nodup) :
    NonceHistory ttl s (Transition.collect (NonceCall.step env ttl) NonceCall.issued ⟨NonceInner.empty, clock⟩ calls)
      (Transition.collect (NonceCall.step env ttl) (NonceCall.accepted env ttl) ⟨NonceInner.empty, clock⟩ calls)
      (Transition.collect (NonceCall.step env ttl) (NonceCall.consumed env) ⟨NonceInner.empty, clock⟩ calls) := by
  induction calls using List.reverseRecOn generalizing s with
  | nil =>
    cases Option.some.inj hrun
    exact start ttl clock
  | append_singleton calls call ih =>
    obtain ⟨u, hu, hlast⟩ := Transition.run_append.mp hrun
    obtain ⟨v, hv, hnil⟩ := Transition.run_cons.mp hlast
    cases Option.some.inj hnil
    rw [Transition.collect_concat hu] at hnodup
    rw [Transition.collect_concat hu, Transition.collect_concat hu, Transition.collect_concat hu]
    have hbefore := (List.nodup_append'.mp (List.map_append ▸ hnodup)).1
    exact (ih hu hbefore).step hv hnodup

end NonceHistory

/-- A login that fails before the nonce is looked at leaves the store alone. -/
theorem verifySiweMessage_rejected {env : SiweEnv} {ttl : Nat} {inner : NonceInner} {login : SiweLogin}
    {now instant : Int} {e : SiweError} (h : (verifySiweMessage env ttl inner login now instant).1 = .error e)
    (hreason : e ≠ .nonceInvalid) : (verifySiweMessage env ttl inner login now instant).2 = inner := by
  unfold verifySiweMessage at h ⊢
  split at h
  next => rfl
  next message =>
    simp only at h
    split at h
    next => simp at h
    next => exact absurd (Except.error.inj h).symm hreason

/-- Whatever calls are made on a store whose nonces are drawn afresh: the counts per address are those of the
nonces, within both ceilings; every nonce admits one login at most, and only within its lifetime; a login rejected
for another reason leaves it where it is; and until a call takes it out or its time is up, it admits one. -/
theorem nonceStore_sound (env : SiweEnv) (ttl : Nat) (clock : Int) (calls : List NonceCall) (s : NonceState)
    (hrun : Transition.run (NonceCall.step env ttl) ⟨NonceInner.empty, clock⟩ calls = some s)
    (hfresh : ((Transition.collect (NonceCall.step env ttl) NonceCall.issued ⟨NonceInner.empty, clock⟩ calls).map
      Prod.fst).Nodup) :
    (∀ k, s.inner.perIp.lookup k = if s.inner.owned k = 0 then none else some (s.inner.owned k)) ∧
    (∀ k, s.inner.owned k ≤ 128) ∧ s.inner.nonces.entries.length ≤ 10000 ∧
    ((Transition.collect (NonceCall.step env ttl) (NonceCall.accepted env ttl) ⟨NonceInner.empty, clock⟩ calls).map
      Prod.fst).Nodup ∧
    (∀ n t, (n, t) ∈ Transition.collect (NonceCall.step env ttl) (NonceCall.accepted env ttl)
        ⟨NonceInner.empty, clock⟩ calls →
      ∃ c, (n, c) ∈ Transition.collect (NonceCall.step env ttl) NonceCall.issued ⟨NonceInner.empty, clock⟩ calls ∧
        c ≤ t ∧ t - c ≤ ttl) ∧
    (∀ login now instant e, (verifySiweMessage env ttl s.inner login now instant).1 = .error e → e ≠ .nonceInvalid →
      (verifySiweMessage env ttl s.inner login now instant).2 = s.inner) ∧
    (∀ n c, (n, c) ∈ Transition.collect (NonceCall.step env ttl) NonceCall.issued ⟨NonceInner.empty, clock⟩ calls →
      n ∉ Transition.collect (NonceCall.step env ttl) (NonceCall.consumed env) ⟨NonceInner.empty, clock⟩ calls →
      ∀ login now instant message, checkSiweMessage env login now = .ok message → message.nonce = n →
        s.clock ≤ instant → instant - c ≤ ttl →
        (verifySiweMessage env ttl s.inner login now instant).1 = .ok message.address) := by
  have h := NonceHistory.run hrun hfresh
  refine ⟨h.balanced.tracks, h.balanced.perIp, h.balanced.total, h.once, fun n t hn => (h.within hn).2,
    fun login now instant e => verifySiweMessage_rejected, ?_⟩
  rintro n c hissued hunspent login now instant message hcheck rfl hle httl
  obtain ⟨owner, hentry⟩ := h.usable hissued hunspent (by omega)
  simp [verifySiweMessage, hcheck, NonceInner.consume, hentry, httl]

namespace Scenario

def siweMessage : SiweMessage := ⟨"darkpool", 7, 1, "n", 0, some 600, none⟩

def siweEnv : SiweEnv := ⟨fun _ => .ok siweMessage, fun _ _ => .ok ()⟩

def siweLogin : SiweLogin := ⟨"", [], some 1, some "darkpool"⟩

/-- One login, first for the wrong chain, and a replay. -/
def logins : List NonceCall :=
  [.generateFor "ip" "n" 0, .verify ⟨"", [], some 2, none⟩ 0 1, .verify siweLogin 0 2, .verify siweLogin 0 3]

end Scenario

open Scenario in
theorem nonceStore_sound_replayed :
    ∃ s, Transition.run (NonceCall.step siweEnv 300) ⟨NonceInner.empty, 0⟩ logins = some s ∧
      Transition.collect (NonceCall.step siweEnv 300) (NonceCall.accepted siweEnv 300) ⟨NonceInner.empty, 0⟩ logins =
        [("n", 2)] ∧
      s.inner.perIp.lookup "ip" = if s.inner.owned "ip" = 0 then none else some (s.inner.owned "ip") :=
  ⟨_, rfl, by decide, (nonceStore_sound siweEnv 300 0 logins _ rfl (by decide)).1 "ip"⟩

end DarkPool
