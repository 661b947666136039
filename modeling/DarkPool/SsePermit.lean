import DarkPool.SseSound

namespace DarkPool

namespace SseState

variable {maxPerKey : Nat} {s s' : SseState}

/-- Who is acquiring was so before, or owned the lock. -/
theorem acquiring_effect (he : SseEffect maxPerKey s s') {key : String} {x : Nat}
    (h : x ∈ s'.within key StreamPhase.acquiring) : s.Acquiring key x := by
  obtain ⟨h', hx, hk, hphase⟩ := mem_within.mp h
  cases he with
  | idle semaphores available next holders
  | retires entry i found count semaphores available next holders =>
    exact Or.inl (mem_within.mpr ⟨h', holders ▸ hx, hk, hphase⟩)
  | moves t h p held quiet kind mapped semaphores available next holders =>
    rw [holders] at hx
    obtain ⟨rfl, rfl⟩ | ⟨-, hx⟩ := Table.lookup_insert_cases hx
    · exact Or.inl (mem_within.mpr ⟨h, held, hk, kind hphase⟩)
    · exact Or.inl (mem_within.mpr ⟨h', hx, hk, hphase⟩)
  | acquires t h held phase free semaphores available next holders
  | releases t h held phase semaphores available next holders
  | removes t h held phase count semaphores available next holders =>
    rw [holders] at hx
    obtain ⟨rfl, rfl⟩ | ⟨-, hx⟩ := Table.lookup_insert_cases hx
    · simp [StreamPhase.acquiring] at hphase
    · exact Or.inl (mem_within.mpr ⟨h', hx, hk, hphase⟩)
  | enters t key' i owner unlocks found semaphores available next holders
  | creates t key' owner unlocks missing semaphores available next holders =>
    rw [holders] at hx
    obtain ⟨rfl, rfl⟩ | ⟨-, hx⟩ := Table.lookup_insert_cases hx
    · exact Or.inr (hk ▸ owner)
    · exact Or.inl (mem_within.mpr ⟨h', hx, hk, hphase⟩)
  | leaves t h held quiet semaphores available next holders =>
    rw [holders] at hx
    exact Or.inl (mem_within.mpr ⟨h', (Table.lookup_erase_cases hx).2, hk, hphase⟩)

/-- Who is live was so before, or was acquiring. -/
theorem live_effect (he : SseEffect maxPerKey s s') {key : String} {x : Nat} (h : x ∈ s'.livePermits key) :
    x ∈ s.livePermits key ∨ s.Acquiring key x := by
  obtain ⟨h', hx, hk, hphase⟩ := mem_livePermits.mp h
  cases he with
  | idle semaphores available next holders
  | retires entry i found count semaphores available next holders =>
    exact Or.inl (mem_livePermits.mpr ⟨h', holders ▸ hx, hk, hphase⟩)
  | moves t h p held quiet kind mapped semaphores available next holders =>
    rw [holders] at hx
    obtain ⟨rfl, rfl⟩ | ⟨-, hx⟩ := Table.lookup_insert_cases hx
    · exact absurd hphase quiet.2
    · exact Or.inl (mem_livePermits.mpr ⟨h', hx, hk, hphase⟩)
  | acquires t h held phase free semaphores available next holders =>
    rw [holders] at hx
    obtain ⟨rfl, rfl⟩ | ⟨-, hx⟩ := Table.lookup_insert_cases hx
    · exact Or.inr (Or.inl (mem_within.mpr ⟨h, held, hk, by simp [phase, StreamPhase.acquiring]⟩))
    · exact Or.inl (mem_livePermits.mpr ⟨h', hx, hk, hphase⟩)
  | releases t h held phase semaphores available next holders
  | removes t h held phase count semaphores available next holders
  | enters t key' i owner unlocks found semaphores available next holders
  | creates t key' owner unlocks missing semaphores available next holders =>
    rw [holders] at hx
    obtain ⟨rfl, rfl⟩ | ⟨-, hx⟩ := Table.lookup_insert_cases hx
    · simp at hphase
    · exact Or.inl (mem_livePermits.mpr ⟨h', hx, hk, hphase⟩)
  | leaves t h held quiet semaphores available next holders =>
    rw [holders] at hx
    exact Or.inl (mem_livePermits.mpr ⟨h', (Table.lookup_erase_cases hx).2, hk, hphase⟩)

/-- Nobody else acquires for the key, and nobody else has since become live. -/
structure Alone (before : Finset Nat) (key : String) (t : Nat) (s : SseState) : Prop where
  others : ∀ x, x ≠ t → ¬s.Acquiring key x
  live : ∀ x ∈ s.livePermits key, x ≠ t → x ∈ before

theorem Alone.step {before : Finset Nat} {key : String} {t : Nat} {a : SseAction} (hs : s.Alone before key t)
    (h : s.step maxPerKey a = some s') (ha : ∀ x order, a = .lockAcquire x key order → x = t) :
    s'.Alone before key t where
  others x hx hacq := by
    rcases hacq with hin | howner
    · exact hs.others x hx (acquiring_effect (step_effect h) hin)
    · rcases step_entering h howner with hbefore | ⟨⟨order, hlock⟩, -, -⟩
      · exact hs.others x hx (Or.inr hbefore)
      · exact hx (ha x order hlock)
  live x hin hx := by
    rcases live_effect (step_effect h) hin with hlive | hacq
    · exact hs.live x hlive hx
    · exact absurd hacq (hs.others x hx)

theorem Alone.run {before : Finset Nat} {key : String} {t : Nat} {as : List SseAction} (hs : s.Alone before key t)
    (h : Transition.run (SseState.step maxPerKey) s as = some s')
    (has : ∀ x order, SseAction.lockAcquire x key order ∈ as → x = t) : s'.Alone before key t := by
  have hmeets : Transition.Meets (SseState.step maxPerKey)
      (fun _ a => ∀ x order, a = .lockAcquire x key order → x = t) s as :=
    Transition.meets_of_mem (fun a ha x order heq => has x order (heq ▸ ha))
  exact Transition.run_invariant (fun _ _ _ hs ha hstep => hs.step hstep ha) hs hmeets h

/-- The semaphore has a permit left for who comes alone. -/
theorem Alone.tryAcquireOwned {before : Finset Nat} {key : String} {t i : Nat} (hs : s.Alone before key t)
    (hsound : s.Sound maxPerKey) (hbefore : before.card < maxPerKey)
    (hheld : s.holders.lookup t = some ⟨key, i, .cloned⟩) :
    ∃ s', s.step maxPerKey (.tryAcquireOwned t) = some s' ∧ s'.holders.lookup t = some ⟨key, i, .live⟩ := by
  have hsubset : s.livePermits key ⊆ before := by
    intro x hin
    refine hs.live x hin ?_
    rintro rfl
    obtain ⟨h, hh, -, hlive⟩ := mem_livePermits.mp hin
    cases Option.some.inj (hheld.symm.trans hh)
    simp at hlive
  have hcard := Finset.card_le_card hsubset
  have hpermits := hsound.permits (hsound.mapped hheld (by simp))
  have hfree : 0 < s.available i := by
    simp only at hpermits
    omega
  have hat : s.holderAt t .cloned = some ⟨key, i, .cloned⟩ := holderAt_eq_some.mpr ⟨hheld, rfl⟩
  refine ⟨_, by rw [SseState.step, hat, Option.map_some, if_pos hfree], ?_⟩
  exact AList.lookup_insert _

/-- The loop of `retain` ends, and nobody who holds a semaphore notices. -/
theorem retain_ends (maxPerKey : Nat) {t : Nat} {key : String} (todo : List String)
    (hlock : s.lock = some (.retain t key todo)) :
    ∃ n s', Transition.run (step maxPerKey) s (List.replicate n .advance) = some s' ∧
      s'.lock = some (.retain t key []) ∧ s'.holders = s.holders := by
  induction todo generalizing s with
  | nil => exact ⟨0, s, rfl, hlock, rfl⟩
  | cons entry todo ih =>
    have hread : ∃ s₁, s.step maxPerKey .advance = some s₁ ∧ s₁.holders = s.holders ∧
        (s₁.lock = some (.retain t key todo) ∨ ∃ busy, s₁.lock = some (.count t key entry busy todo)) := by
      simp only [step, advance, hlock]
      split <;> exact ⟨_, rfl, rfl, by simp⟩
    obtain ⟨s₁, hs₁, hholders₁, hlock₁⟩ := hread
    have hcount : ∃ n s₂, Transition.run (step maxPerKey) s (List.replicate n .advance) = some s₂ ∧
        s₂.lock = some (.retain t key todo) ∧ s₂.holders = s.holders := by
      rcases hlock₁ with hlock₁ | ⟨busy, hlock₁⟩
      · exact ⟨1, s₁, Transition.run_cons.mpr ⟨s₁, hs₁, rfl⟩, hlock₁, hholders₁⟩
      · have hnext : ∃ s₂, s₁.step maxPerKey .advance = some s₂ ∧ s₂.holders = s₁.holders ∧
            s₂.lock = some (.retain t key todo) := by
          simp only [step, advance, hlock₁]
          split
          next => split <;> exact ⟨_, rfl, rfl, rfl⟩
          next => exact ⟨_, rfl, rfl, rfl⟩
        obtain ⟨s₂, hs₂, hholders₂, hlock₂⟩ := hnext
        exact ⟨2, s₂, Transition.run_cons.mpr ⟨s₁, hs₁, Transition.run_cons.mpr ⟨s₂, hs₂, rfl⟩⟩, hlock₂,
          hholders₂.trans hholders₁⟩
    obtain ⟨n, s₂, hrun, hlock₂, hholders₂⟩ := hcount
    obtain ⟨m, s', hrest, hend, hholders⟩ := ih hlock₂
    refine ⟨n + m, s', ?_, hend, hholders.trans hholders₂⟩
    rw [List.replicate_add]
    exact Transition.run_append.mpr ⟨s₂, hrun, hrest⟩

/-- A call that runs on its own reaches the semaphore. -/
theorem reaches_cloned (maxPerKey : Nat) {t : Nat} (key : String) (hfree : s.lock = none) (hnew : s.holders.lookup t = none) :
    ∃ n s' i, Transition.run (step maxPerKey) s
        (.lockAcquire t key s.semaphores.keys :: (List.replicate n .advance ++ [.clone t])) = some s' ∧
      s'.holders.lookup t = some ⟨key, i, .cloned⟩ := by
  have hlock : s.step maxPerKey (.lockAcquire t key s.semaphores.keys) =
      some { s with lock := some (.retain t key s.semaphores.keys) } := by simp [step, hfree, hnew]
  obtain ⟨n, s₁, hloop, hlock₁, -⟩ := retain_ends maxPerKey (t := t) s.semaphores.keys
    (s := { s with lock := some (.retain t key s.semaphores.keys) }) rfl
  have henter : ∃ s₂ i, s₁.step maxPerKey .advance = some s₂ ∧ s₂.holders.lookup t = some ⟨key, i, .entered⟩ := by
    simp only [step, advance, hlock₁]
    split <;> exact ⟨_, _, rfl, AList.lookup_insert _⟩
  obtain ⟨s₂, i, hs₂, hentered⟩ := henter
  have hclone : s₂.step maxPerKey (.clone t) = some (s₂.move t ⟨key, i, .entered⟩ .cloned) := by
    rw [step, holderAt_eq_some.mpr ⟨hentered, rfl⟩, Option.map_some]
  refine ⟨n + 1, s₂.move t ⟨key, i, .entered⟩ .cloned, i, ?_, AList.lookup_insert _⟩
  refine Transition.run_cons.mpr ⟨_, hlock, Transition.run_append.mpr ⟨s₂, ?_, Transition.run_cons.mpr ⟨_, hclone, rfl⟩⟩⟩
  rw [List.replicate_add]
  exact Transition.run_append.mpr ⟨s₁, hloop, Transition.run_cons.mpr ⟨s₂, hs₂, rfl⟩⟩

end SseState

/-- In every interleaving: no key has more live permits than allowed; an entry goes only when no permit of its key
is live and no call for it in progress; and a call that finds a permit free, and no other call for its key beside
it, gets one, at once if it runs alone. -/
theorem sseStreamLimiter_sound (maxPerKey : Nat) (as : List SseAction) (s : SseState)
    (hrun : Transition.run (SseState.step maxPerKey) SseState.new as = some s) :
    (∀ key, (s.livePermits key).card ≤ maxPerKey) ∧
    (∀ a s' key i, s.step maxPerKey a = some s' → s.semaphores.lookup key = some i →
      s'.semaphores.lookup key ≠ some i → ∀ t h, s.holders.lookup t = some h → h.key = key →
      h.phase ≠ .live ∧ h.phase.acquiring = false) ∧
    (∀ key t, (s.livePermits key ∪ s.releasingPermits key).card < maxPerKey → (∀ x, x ≠ t → ¬s.Acquiring key x) →
      (∀ bs s' i, (∀ x order, SseAction.lockAcquire x key order ∈ bs → x = t) →
        Transition.run (SseState.step maxPerKey) s bs = some s' → s'.holders.lookup t = some ⟨key, i, .cloned⟩ →
        ∃ s'', s'.step maxPerKey (.tryAcquireOwned t) = some s'' ∧ s''.holders.lookup t = some ⟨key, i, .live⟩) ∧
      (s.lock = none → s.holders.lookup t = none → ∃ n s' i, Transition.run (SseState.step maxPerKey) s
          (.lockAcquire t key s.semaphores.keys ::
            (List.replicate n .advance ++ [.clone t]) ++ [.tryAcquireOwned t]) = some s' ∧
        s'.holders.lookup t = some ⟨key, i, .live⟩)) := by
  have hsound := SseState.Sound.new.run hrun
  refine ⟨hsound.card_livePermits_le, fun a s' key i hstep => hsound.removed (SseState.step_effect hstep), ?_⟩
  intro key t hroom hothers
  have hbefore : (s.livePermits key).card < maxPerKey :=
    (Finset.card_le_card Finset.subset_union_left).trans_lt hroom
  have halone : s.Alone (s.livePermits key) key t := ⟨hothers, fun _ hin _ => hin⟩
  have hsucceeds : ∀ bs s' i, (∀ x order, SseAction.lockAcquire x key order ∈ bs → x = t) →
      Transition.run (SseState.step maxPerKey) s bs = some s' → s'.holders.lookup t = some ⟨key, i, .cloned⟩ →
      ∃ s'', s'.step maxPerKey (.tryAcquireOwned t) = some s'' ∧ s''.holders.lookup t = some ⟨key, i, .live⟩ :=
    fun bs s' i hbs hrun' => (halone.run hrun' hbs).tryAcquireOwned (hsound.run hrun') hbefore
  refine ⟨hsucceeds, fun hfree hnew => ?_⟩
  obtain ⟨n, s', i, hcall, hcloned⟩ := SseState.reaches_cloned maxPerKey key hfree hnew
  obtain ⟨s'', hlast, hlive⟩ := hsucceeds _ s' i (by simp [List.mem_replicate]) hcall hcloned
  exact ⟨n, s'', i, Transition.run_append.mpr ⟨s', hcall, Transition.run_cons.mpr ⟨s'', hlast, rfl⟩⟩, hlive⟩

theorem sseStreamLimiter_sound_one_permit :
    ∃ s, Transition.run (SseState.step 1) SseState.new
        [.lockAcquire 0 "k" [], .advance, .clone 0, .tryAcquireOwned 0, .release 0] = some s ∧
      (s.livePermits "k").card ≤ 1 :=
  ⟨_, rfl, (sseStreamLimiter_sound 1
    [.lockAcquire 0 "k" [], .advance, .clone 0, .tryAcquireOwned 0, .release 0] _ rfl).1 "k"⟩

end DarkPool
