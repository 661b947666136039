import Mathlib.Data.Finset.Card
import DarkPool.SseLimiter

namespace DarkPool

namespace SseState

variable {maxPerKey : Nat} {s s' : SseState}

theorem one_le_arcs (p : StreamPhase) : 1 ≤ p.arcs := by cases p <;> decide

theorem one_le_count {key : String} {i : Nat} (h : s.semaphores.lookup key = some i) :
    1 ≤ s.semaphores.values.count i := List.one_le_count_iff.mpr (Table.mem_values.mpr ⟨key, h⟩)

/-- The map and one who holds the semaphore count two. -/
theorem two_le_strongCount {key : String} {i t : Nat} {h : StreamHolder} (hkey : s.semaphores.lookup key = some i)
    (hheld : s.holders.lookup t = some h) (hi : h.semaphore = i) : 2 ≤ s.strongCount i := by
  have hone := one_le_count hkey
  have hsum := Table.le_sum_values (fun h : StreamHolder => if h.semaphore = i then h.phase.arcs else 0) hheld
  have harcs := one_le_arcs h.phase
  simp only [hi, if_true] at hsum
  unfold strongCount
  omega

theorem three_le_strongCount {key : String} {i t t' : Nat} {h h' : StreamHolder}
    (hkey : s.semaphores.lookup key = some i) (hheld : s.holders.lookup t = some h) (hi : h.semaphore = i)
    (hheld' : s.holders.lookup t' = some h') (hi' : h'.semaphore = i) (hne : t' ≠ t) : 3 ≤ s.strongCount i := by
  have hone := one_le_count hkey
  have hsum := Table.add_le_sum_values (fun h : StreamHolder => if h.semaphore = i then h.phase.arcs else 0) hheld
    hheld' hne
  have harcs := one_le_arcs h.phase
  have harcs' := one_le_arcs h'.phase
  simp only [hi, hi', if_true] at hsum
  unfold strongCount
  omega

/-- Every call and permit holds the semaphore the map has for its key, and the permits of a key are on loan. -/
structure Sound (maxPerKey : Nat) (s : SseState) : Prop where
  mapped : ∀ {t h}, s.holders.lookup t = some h → h.phase ≠ .unlocked →
    s.semaphores.lookup h.key = some h.semaphore
  distinct : ∀ {key key' i}, s.semaphores.lookup key = some i → s.semaphores.lookup key' = some i → key = key'
  bound : ∀ {key i}, s.semaphores.lookup key = some i → i < s.nextSemaphore
  permits : ∀ {key i}, s.semaphores.lookup key = some i → s.available i + (s.livePermits key).card = maxPerKey
  fresh : ∀ {t key}, s.entering = some (t, key) → s.holders.lookup t = none

theorem mem_livePermits {key : String} {t : Nat} :
    t ∈ s.livePermits key ↔ ∃ h, s.holders.lookup t = some h ∧ h.key = key ∧ h.phase = .live := by
  simp [livePermits, mem_within]

/-- Only one call or permit moved. -/
theorem mem_livePermits_insert {t : Nat} {h : StreamHolder} (hholders : s'.holders = s.holders.insert t h)
    {key : String} {x : Nat} :
    x ∈ s'.livePermits key ↔ if x = t then h.key = key ∧ h.phase = .live else x ∈ s.livePermits key := by
  rw [mem_livePermits, hholders, Table.lookup_insert_eq]
  split
  next => simp
  next => rw [mem_livePermits]

theorem mem_livePermits_erase {t : Nat} (hholders : s'.holders = s.holders.erase t) {key : String} {x : Nat} :
    x ∈ s'.livePermits key ↔ x ≠ t ∧ x ∈ s.livePermits key := by
  rw [mem_livePermits, hholders, Table.lookup_erase_eq, mem_livePermits]
  split
  next heq => simp [heq]
  next hne => simp [hne]

/-- A move of one that is not live before or after. -/
theorem livePermits_quiet {t : Nat} {h : StreamHolder} (hholders : s'.holders = s.holders.insert t h)
    (hquiet : h.phase ≠ .live) (hbefore : ∀ h', s.holders.lookup t = some h' → h'.phase ≠ .live) (key : String) :
    s'.livePermits key = s.livePermits key := by
  ext x
  rw [mem_livePermits_insert hholders]
  split
  next heq =>
    subst heq
    have hout : x ∉ s.livePermits key := fun hin =>
      let ⟨h', hh', _, hlive⟩ := mem_livePermits.mp hin
      hbefore h' hh' hlive
    simp [hquiet, hout]
  next => rfl

theorem card_livePermits_acquires {t : Nat} {h : StreamHolder} (hheld : s.holders.lookup t = some h)
    (hphase : h.phase = .cloned) (hholders : s'.holders = s.holders.insert t { h with phase := .live }) (key : String) :
    (s'.livePermits key).card = (s.livePermits key).card + if key = h.key then 1 else 0 := by
  have hout : t ∉ s.livePermits key := by
    intro hin
    obtain ⟨h', hh', -, hlive⟩ := mem_livePermits.mp hin
    cases Option.some.inj (hheld.symm.trans hh')
    simp [hphase] at hlive
  split
  next hk =>
    have hset : s'.livePermits key = insert t (s.livePermits key) := by
      ext x
      rw [mem_livePermits_insert hholders, Finset.mem_insert]
      split <;> simp [*]
    rw [hset, Finset.card_insert_of_notMem hout]
  next hk =>
    have hset : s'.livePermits key = s.livePermits key := by
      ext x
      rw [mem_livePermits_insert hholders]
      split
      next heq => simp [heq, hout, Ne.symm hk]
      next => rfl
    rw [hset, Nat.add_zero]

theorem card_livePermits_releases {t : Nat} {h : StreamHolder} (hheld : s.holders.lookup t = some h)
    (hphase : h.phase = .live) (hholders : s'.holders = s.holders.insert t { h with phase := .returned })
    (key : String) : (s.livePermits key).card = (s'.livePermits key).card + if key = h.key then 1 else 0 := by
  have hset : s'.livePermits key = (s.livePermits key).erase t := by
    ext x
    rw [mem_livePermits_insert hholders, Finset.mem_erase]
    split <;> simp [*]
  split
  next hk =>
    have hin : t ∈ s.livePermits key := mem_livePermits.mpr ⟨h, hheld, hk.symm, hphase⟩
    rw [hset, Finset.card_erase_add_one hin]
  next hk =>
    have hout : t ∉ s.livePermits key := by
      intro hin
      obtain ⟨h', hh', hkey, -⟩ := mem_livePermits.mp hin
      cases Option.some.inj (hheld.symm.trans hh')
      exact hk hkey.symm
    rw [hset, Finset.erase_eq_of_notMem hout, Nat.add_zero]

namespace Sound

theorem unused_of_strongCount_le_one (hs : s.Sound maxPerKey) {entry : String} {i : Nat}
    (hfound : s.semaphores.lookup entry = some i) (hcount : s.strongCount i ≤ 1) {t : Nat} {h : StreamHolder}
    (hheld : s.holders.lookup t = some h) (hphase : h.phase ≠ .unlocked) : h.key ≠ entry := by
  intro heq
  have hmapped := hs.mapped hheld hphase
  rw [heq, hfound] at hmapped
  have htwo := two_le_strongCount hfound hheld (Option.some.inj hmapped).symm
  omega

theorem unused_of_strongCount_le_two (hs : s.Sound maxPerKey) {t t' : Nat} {h h' : StreamHolder}
    (hheld : s.holders.lookup t = some h) (hphase : h.phase = .taken) (hcount : s.strongCount h.semaphore ≤ 2)
    (hheld' : s.holders.lookup t' = some h') (hphase' : h'.phase ≠ .unlocked) (hne : t' ≠ t) : h'.key ≠ h.key := by
  intro heq
  have hfound := hs.mapped hheld (by simp [hphase])
  have hmapped := hs.mapped hheld' hphase'
  rw [heq, hfound] at hmapped
  have hthree := three_le_strongCount hfound hheld rfl hheld' (Option.some.inj hmapped).symm hne
  omega

theorem mapped_effect (hs : s.Sound maxPerKey) (he : SseEffect maxPerKey s s') {x : Nat} {h' : StreamHolder}
    (hx : s'.holders.lookup x = some h') (hphase' : h'.phase ≠ .unlocked) :
    s'.semaphores.lookup h'.key = some h'.semaphore := by
  cases he with
  | idle semaphores available next holders =>
    rw [holders] at hx
    rw [semaphores]
    exact hs.mapped hx hphase'
  | moves t h p held quiet kind mapped semaphores available next holders =>
    rw [holders] at hx
    rw [semaphores]
    obtain ⟨rfl, rfl⟩ | ⟨-, hx⟩ := Table.lookup_insert_cases hx
    · have hbefore : h.phase ≠ .unlocked := fun heq => hphase' (mapped heq)
      have hmapped := hs.mapped held hbefore
      exact hmapped
    · exact hs.mapped hx hphase'
  | acquires t h held phase free semaphores available next holders
  | releases t h held phase semaphores available next holders =>
    rw [holders] at hx
    rw [semaphores]
    obtain ⟨rfl, rfl⟩ | ⟨-, hx⟩ := Table.lookup_insert_cases hx
    · have hmapped := hs.mapped held (by simp [phase])
      exact hmapped
    · exact hs.mapped hx hphase'
  | retires entry i found count semaphores available next holders =>
    rw [holders] at hx
    rw [semaphores, Table.lookup_erase_eq, if_neg (hs.unused_of_strongCount_le_one found count hx hphase')]
    exact hs.mapped hx hphase'
  | removes t h held phase count semaphores available next holders =>
    rw [holders] at hx
    obtain ⟨rfl, rfl⟩ | ⟨hne, hx⟩ := Table.lookup_insert_cases hx
    · exact absurd rfl hphase'
    · rw [semaphores, Table.lookup_erase_eq,
        if_neg (hs.unused_of_strongCount_le_two held phase count hx hphase' hne)]
      exact hs.mapped hx hphase'
  | enters t key i owner unlocks found semaphores available next holders =>
    rw [holders] at hx
    rw [semaphores]
    obtain ⟨rfl, rfl⟩ | ⟨-, hx⟩ := Table.lookup_insert_cases hx
    · exact found
    · exact hs.mapped hx hphase'
  | creates t key owner unlocks missing semaphores available next holders =>
    rw [holders] at hx
    rw [semaphores, Table.lookup_insert_eq]
    obtain ⟨rfl, rfl⟩ | ⟨-, hx⟩ := Table.lookup_insert_cases hx
    · rw [if_pos rfl]
    · have hmapped := hs.mapped hx hphase'
      have hne : h'.key ≠ key := by
        rintro rfl
        rw [missing] at hmapped
        exact absurd hmapped (by simp)
      rw [if_neg hne, hmapped]
  | leaves t h held quiet semaphores available next holders =>
    rw [holders] at hx
    rw [semaphores]
    exact hs.mapped (Table.lookup_erase_cases hx).2 hphase'

/-- The entries of the map: those of before, or the new one. -/
theorem lookup_effect (he : SseEffect maxPerKey s s') {key : String} {i : Nat}
    (hkey : s'.semaphores.lookup key = some i) :
    s.semaphores.lookup key = some i ∧ s.nextSemaphore ≤ s'.nextSemaphore ∨
      s.semaphores.lookup key = none ∧ i = s.nextSemaphore ∧ s'.nextSemaphore = s.nextSemaphore + 1 ∧
        ∀ key', key' ≠ key → s'.semaphores.lookup key' = s.semaphores.lookup key' := by
  cases he with
  | idle semaphores available next holders
  | moves t h p held quiet kind mapped semaphores available next holders
  | acquires t h held phase free semaphores available next holders
  | releases t h held phase semaphores available next holders
  | enters t key' i' owner unlocks found semaphores available next holders
  | leaves t h held quiet semaphores available next holders =>
    exact Or.inl ⟨semaphores ▸ hkey, next.ge⟩
  | retires entry i' found count semaphores available next holders
  | removes t h held phase count semaphores available next holders =>
    rw [semaphores] at hkey
    exact Or.inl ⟨(Table.lookup_erase_cases hkey).2, next.ge⟩
  | creates t key' owner unlocks missing semaphores available next holders =>
    rw [semaphores] at hkey
    obtain ⟨rfl, rfl⟩ | ⟨-, hkey⟩ := Table.lookup_insert_cases hkey
    · refine Or.inr ⟨missing, rfl, next, fun other hne => ?_⟩
      rw [semaphores, Table.lookup_insert_eq, if_neg hne]
    · exact Or.inl ⟨hkey, by omega⟩

theorem distinct_effect (hs : s.Sound maxPerKey) (he : SseEffect maxPerKey s s') {key key' : String} {i : Nat}
    (h : s'.semaphores.lookup key = some i) (h' : s'.semaphores.lookup key' = some i) : key = key' := by
  by_contra hne
  rcases lookup_effect he h with ⟨hold, -⟩ | ⟨-, hi, -, hsame⟩
  · rcases lookup_effect he h' with ⟨hold', -⟩ | ⟨-, hi, -, hsame⟩
    · exact hne (hs.distinct hold hold')
    · have := hs.bound hold
      omega
  · rw [hsame key' (Ne.symm hne)] at h'
    have := hs.bound h'
    omega

theorem bound_effect (hs : s.Sound maxPerKey) (he : SseEffect maxPerKey s s') {key : String} {i : Nat}
    (h : s'.semaphores.lookup key = some i) : i < s'.nextSemaphore := by
  rcases lookup_effect he h with ⟨hold, hle⟩ | ⟨-, hi, hnext, -⟩
  · exact (hs.bound hold).trans_le hle
  · omega

/-- A key without an entry has no permits out. -/
theorem livePermits_eq_empty (hs : s.Sound maxPerKey) {key : String} (h : s.semaphores.lookup key = none) :
    s.livePermits key = ∅ := by
  apply Finset.eq_empty_of_forall_notMem
  intro t ht
  obtain ⟨holder, hheld, rfl, hlive⟩ := mem_livePermits.mp ht
  have hmapped := hs.mapped hheld (by simp [hlive])
  rw [h] at hmapped
  exact absurd hmapped (by simp)

theorem permits_effect (hs : s.Sound maxPerKey) (he : SseEffect maxPerKey s s') {key : String} {i : Nat}
    (hkey : s'.semaphores.lookup key = some i) : s'.available i + (s'.livePermits key).card = maxPerKey := by
  cases he with
  | idle semaphores available next holders =>
    have hsame : s'.livePermits key = s.livePermits key := by rw [livePermits, within, holders]; rfl
    rw [semaphores] at hkey
    rw [available, hsame]
    exact hs.permits hkey
  | moves t h p held quiet kind mapped semaphores available next holders =>
    rw [semaphores] at hkey
    rw [available, livePermits_quiet holders quiet.2 (fun h' hh' => by
      cases Option.some.inj (held.symm.trans hh')
      exact quiet.1)]
    exact hs.permits hkey
  | acquires t h held phase free semaphores available next holders =>
    rw [semaphores] at hkey
    have hmapped := hs.mapped held (by simp [phase])
    have hcard := card_livePermits_acquires held phase holders key
    have hbefore := hs.permits hkey
    by_cases hk : key = h.key
    · subst hk
      obtain rfl : h.semaphore = i := Option.some.inj (hmapped.symm.trans hkey)
      rw [available, Function.update_self, hcard, if_pos rfl]
      omega
    · have hi : i ≠ h.semaphore := fun heq => hk (hs.distinct hkey (heq ▸ hmapped))
      rw [available, Function.update_of_ne hi, hcard, if_neg hk]
      exact hbefore
  | releases t h held phase semaphores available next holders =>
    rw [semaphores] at hkey
    have hmapped := hs.mapped held (by simp [phase])
    have hcard := card_livePermits_releases held phase holders key
    have hbefore := hs.permits hkey
    by_cases hk : key = h.key
    · subst hk
      obtain rfl : h.semaphore = i := Option.some.inj (hmapped.symm.trans hkey)
      rw [if_pos rfl] at hcard
      rw [available, Function.update_self]
      omega
    · have hi : i ≠ h.semaphore := fun heq => hk (hs.distinct hkey (heq ▸ hmapped))
      rw [if_neg hk] at hcard
      rw [available, Function.update_of_ne hi]
      omega
  | retires entry i found count semaphores available next holders =>
    have hsame : s'.livePermits key = s.livePermits key := by rw [livePermits, within, holders]; rfl
    rw [semaphores] at hkey
    rw [available, hsame]
    exact hs.permits (Table.lookup_erase_cases hkey).2
  | removes t h held phase count semaphores available next holders =>
    rw [semaphores] at hkey
    rw [available, livePermits_quiet holders (by simp) (fun h' hh' => by
      cases Option.some.inj (held.symm.trans hh')
      simp [phase])]
    exact hs.permits (Table.lookup_erase_cases hkey).2
  | enters t key' i' owner unlocks found semaphores available next holders =>
    rw [semaphores] at hkey
    rw [available, livePermits_quiet holders (by simp) (fun h' hh' => by simp [hs.fresh owner] at hh')]
    exact hs.permits hkey
  | creates t key' owner unlocks missing semaphores available next holders =>
    rw [semaphores] at hkey
    rw [available, livePermits_quiet holders (by simp) (fun h' hh' => by simp [hs.fresh owner] at hh')]
    obtain ⟨rfl, rfl⟩ | ⟨-, hkey⟩ := Table.lookup_insert_cases hkey
    · rw [Function.update_self, hs.livePermits_eq_empty missing, Finset.card_empty, Nat.add_zero]
    · rw [Function.update_of_ne (hs.bound hkey).ne]
      exact hs.permits hkey
  | leaves t h held quiet semaphores available next holders =>
    have hsame : s'.livePermits key = s.livePermits key := by
      ext x
      rw [mem_livePermits_erase holders]
      refine ⟨And.right, fun hin => ⟨?_, hin⟩⟩
      rintro rfl
      obtain ⟨h', hh', -, hlive⟩ := mem_livePermits.mp hin
      cases Option.some.inj (held.symm.trans hh')
      exact quiet hlive
    rw [semaphores] at hkey
    rw [available, hsame]
    exact hs.permits hkey

/-- Only the owner of the lock joins those who hold a semaphore. -/
theorem lookup_none_effect (he : SseEffect maxPerKey s s') {t : Nat} {key : String}
    (howner : s'.entering = some (t, key)) (h : s.holders.lookup t = none) : s'.holders.lookup t = none := by
  have hne : ∀ {t' h'}, s.holders.lookup t' = some h' → t ≠ t' := by
    rintro t' h' hheld rfl
    simp [h] at hheld
  cases he with
  | idle semaphores available next holders
  | retires entry i found count semaphores available next holders => rw [holders, h]
  | moves t' h' p held quiet kind mapped semaphores available next holders
  | acquires t' h' held phase free semaphores available next holders
  | releases t' h' held phase semaphores available next holders
  | removes t' h' held phase count semaphores available next holders =>
    rw [holders, Table.lookup_insert_eq, if_neg (hne held), h]
  | enters t' key' i owner unlocks found semaphores available next holders
  | creates t' key' owner unlocks missing semaphores available next holders =>
    rw [unlocks] at howner
    exact absurd howner (by simp)
  | leaves t' h' held quiet semaphores available next holders =>
    rw [holders, Table.lookup_erase_eq, if_neg (hne held), h]

theorem new : SseState.new.Sound maxPerKey where
  mapped h := by simp [SseState.new] at h
  distinct h := by simp [SseState.new] at h
  bound h := by simp [SseState.new] at h
  permits h := by simp [SseState.new] at h
  fresh h := by simp [SseState.new, entering] at h

theorem step {a : SseAction} (hs : s.Sound maxPerKey) (h : s.step maxPerKey a = some s') : s'.Sound maxPerKey where
  mapped := hs.mapped_effect (step_effect h)
  distinct := hs.distinct_effect (step_effect h)
  bound := hs.bound_effect (step_effect h)
  permits := hs.permits_effect (step_effect h)
  fresh := by
    intro t key howner
    apply lookup_none_effect (step_effect h) howner
    rcases step_entering h howner with hbefore | ⟨-, hnew, -⟩
    · exact hs.fresh hbefore
    · exact hnew

theorem run {as : List SseAction} (hs : s.Sound maxPerKey)
    (h : Transition.run (SseState.step maxPerKey) s as = some s') : s'.Sound maxPerKey :=
  Transition.run_preserves (fun _ _ _ hs hstep => hs.step hstep) hs h

theorem card_livePermits_le (hs : s.Sound maxPerKey) (key : String) : (s.livePermits key).card ≤ maxPerKey := by
  cases h : s.semaphores.lookup key with
  | none => simp [hs.livePermits_eq_empty h]
  | some i =>
    have := hs.permits h
    omega

/-- Who loses its entry holds no permit and waits for none. -/
theorem removed (hs : s.Sound maxPerKey) (he : SseEffect maxPerKey s s') {key : String} {i : Nat}
    (hkey : s.semaphores.lookup key = some i) (hgone : s'.semaphores.lookup key ≠ some i) {x : Nat} {h' : StreamHolder}
    (hheld : s.holders.lookup x = some h') (hk : h'.key = key) :
    h'.phase ≠ .live ∧ h'.phase.acquiring = false := by
  have hunlocked : ∀ {entry}, (h'.phase ≠ .unlocked → h'.key ≠ entry) →
      s'.semaphores = s.semaphores.erase entry → h'.phase = .unlocked := by
    intro entry hunused herased
    by_contra hphase
    rw [herased, Table.lookup_erase_eq, if_neg (hk ▸ hunused hphase)] at hgone
    exact hgone hkey
  cases he with
  | idle semaphores available next holders
  | moves t h p held quiet kind mapped semaphores available next holders
  | acquires t h held phase free semaphores available next holders
  | releases t h held phase semaphores available next holders
  | enters t key' i' owner unlocks found semaphores available next holders
  | leaves t h held quiet semaphores available next holders =>
    rw [semaphores] at hgone
    exact absurd hkey hgone
  | retires entry i' found count semaphores available next holders =>
    have hphase := hunlocked (hs.unused_of_strongCount_le_one found count hheld) semaphores
    simp [hphase, StreamPhase.acquiring]
  | removes t h held phase count semaphores available next holders =>
    by_cases heq : x = t
    · subst heq
      cases Option.some.inj (held.symm.trans hheld)
      simp [phase, StreamPhase.acquiring]
    · have hphase := hunlocked
        (fun hne => hs.unused_of_strongCount_le_two held phase count hheld hne heq) semaphores
      simp [hphase, StreamPhase.acquiring]
  | creates t key' owner unlocks missing semaphores available next holders =>
    have hne : key ≠ key' := by
      rintro rfl
      rw [missing] at hkey
      exact absurd hkey (by simp)
    rw [semaphores, Table.lookup_insert_eq, if_neg hne] at hgone
    exact absurd hkey hgone

end Sound

end SseState

end DarkPool
