import Mathlib.Data.Finset.Basic
import DarkPool.Lib.Table
import DarkPool.Lib.Transition

namespace DarkPool

/-- How far a call of `try_acquire` that has left the lock, or the permit it returned, has come. -/
inductive StreamPhase
  | entered
  | cloned
  | refused
  | live
  -- `drop`: the permit is returned, its reference to the semaphore dropped, the lock released.
  | returned
  | taken
  | unlocked
  deriving DecidableEq

namespace StreamPhase

/-- The references to the semaphore it holds. -/
def arcs : StreamPhase → Nat
  | cloned | live | returned => 2
  | entered | refused | taken | unlocked => 1

def acquiring : StreamPhase → Bool
  | entered | cloned | refused => true
  | live | returned | taken | unlocked => false

def releasing : StreamPhase → Bool
  | returned | taken | unlocked => true
  | entered | cloned | refused | live => false

end StreamPhase

structure StreamHolder where
  key : String
  semaphore : Nat
  phase : StreamPhase
  deriving DecidableEq

/-- Where the owner of the mutex stands: in the loop of `retain`, before or after it has read an entry's permits,
or in `drop`. -/
inductive LockSection
  | retain (t : Nat) (key : String) (todo : List String)
  | count (t : Nat) (key entry : String) (busy : Bool) (todo : List String)
  | remove (t : Nat) (idle : Bool)
  deriving DecidableEq

structure SseState where
  semaphores : Table String Nat
  available : Nat → Nat
  nextSemaphore : Nat
  holders : Table Nat StreamHolder
  lock : Option LockSection

/-- The steps of calls and permits; `advance` is the next one of the owner of the mutex. -/
inductive SseAction
  | lockAcquire (t : Nat) (key : String) (order : List String)
  | advance
  | clone (t : Nat)
  | tryAcquireOwned (t : Nat)
  | giveUp (t : Nat)
  | release (t : Nat)
  | dropPermit (t : Nat)
  | lockDrop (t : Nat)
  | finish (t : Nat)

namespace SseState

def new : SseState := ⟨∅, fun _ => 0, 0, ∅, none⟩

/-- `Arc::strong_count`: the map's own reference and those of calls and permits. -/
def strongCount (s : SseState) (i : Nat) : Nat :=
  s.semaphores.values.count i + (s.holders.values.map (fun h => if h.semaphore = i then h.phase.arcs else 0)).sum

def move (s : SseState) (t : Nat) (h : StreamHolder) (phase : StreamPhase) : SseState :=
  { s with holders := s.holders.insert t { h with phase := phase } }

/-- The call or permit, if it stands at the phase. -/
def holderAt (s : SseState) (t : Nat) (phase : StreamPhase) : Option StreamHolder :=
  (s.holders.lookup t).filter (fun h => h.phase = phase)

/-- The next step under the lock. -/
def advance (maxPerKey : Nat) (s : SseState) : Option SseState :=
  match s.lock with
  | none => none
  | some (.retain t key (entry :: todo)) =>
    match s.semaphores.lookup entry with
    | some i => some { s with lock := some (.count t key entry (decide (s.available i < maxPerKey)) todo) }
    | none => some { s with lock := some (.retain t key todo) }
  | some (.count t key entry busy todo) =>
    match s.semaphores.lookup entry with
    | some i =>
      if busy ∨ 1 < s.strongCount i then some { s with lock := some (.retain t key todo) }
      else some { s with semaphores := s.semaphores.erase entry, lock := some (.retain t key todo) }
    | none => some { s with lock := some (.retain t key todo) }
  | some (.retain t key []) =>
    match s.semaphores.lookup key with
    | some i => some { s with holders := s.holders.insert t ⟨key, i, .entered⟩, lock := none }
    | none => some
        { semaphores := s.semaphores.insert key s.nextSemaphore
          available := Function.update s.available s.nextSemaphore maxPerKey
          nextSemaphore := s.nextSemaphore + 1
          holders := s.holders.insert t ⟨key, s.nextSemaphore, .entered⟩
          lock := none }
  | some (.remove t idle) =>
    match s.holderAt t .taken with
    | some h =>
      if idle ∧ s.strongCount h.semaphore ≤ 2 then
        some { s.move t h .unlocked with semaphores := s.semaphores.erase h.key, lock := none }
      else some { s.move t h .unlocked with lock := none }
    | none => none

def step (maxPerKey : Nat) (s : SseState) : SseAction → Option SseState
  | .lockAcquire t key order =>
    if s.lock = none ∧ s.holders.lookup t = none ∧ order.Perm s.semaphores.keys then
      some { s with lock := some (.retain t key order) }
    else none
  | .advance => s.advance maxPerKey
  | .clone t => (s.holderAt t .entered).map (fun h => s.move t h .cloned)
  | .tryAcquireOwned t => (s.holderAt t .cloned).map (fun h =>
    if 0 < s.available h.semaphore then
      { s.move t h .live with available := Function.update s.available h.semaphore (s.available h.semaphore - 1) }
    else s.move t h .refused)
  | .giveUp t => (s.holderAt t .refused).map (fun _ => { s with holders := s.holders.erase t })
  | .release t => (s.holderAt t .live).map (fun h =>
    { s.move t h .returned with
      available := Function.update s.available h.semaphore (s.available h.semaphore + 1) })
  | .dropPermit t => (s.holderAt t .returned).map (fun h => s.move t h .taken)
  | .lockDrop t =>
    if s.lock = none then
      (s.holderAt t .taken).map (fun h =>
        { s with lock := some (.remove t (decide (s.available h.semaphore = maxPerKey))) })
    else none
  | .finish t => (s.holderAt t .unlocked).map (fun _ => { s with holders := s.holders.erase t })

/-- The calls and permits of a key whose phase passes the test. -/
def within (s : SseState) (key : String) (test : StreamPhase → Bool) : Finset Nat :=
  s.holders.keySet.filter (fun t => (s.holders.lookup t).any (fun h => h.key = key ∧ test h.phase))

def livePermits (s : SseState) (key : String) : Finset Nat := s.within key (fun p => p = .live)

def releasingPermits (s : SseState) (key : String) : Finset Nat := s.within key StreamPhase.releasing

/-- The call that owns the mutex, and its key. -/
def entering (s : SseState) : Option (Nat × String) :=
  match s.lock with
  | some (.retain t key _) | some (.count t key _ _ _) => some (t, key)
  | _ => none

/-- The calls of `try_acquire` for a key that are in progress. -/
def Acquiring (s : SseState) (key : String) (t : Nat) : Prop :=
  t ∈ s.within key StreamPhase.acquiring ∨ s.entering = some (t, key)

theorem holderAt_eq_some {s : SseState} {t : Nat} {phase : StreamPhase} {h : StreamHolder} :
    s.holderAt t phase = some h ↔ s.holders.lookup t = some h ∧ h.phase = phase := by
  simp [holderAt, Option.filter_eq_some_iff]

theorem mem_within {s : SseState} {key : String} {test : StreamPhase → Bool} {t : Nat} :
    t ∈ s.within key test ↔ ∃ h, s.holders.lookup t = some h ∧ h.key = key ∧ test h.phase = true := by
  simp only [within, Finset.mem_filter, Table.mem_keySet, Table.mem_iff_lookup, Option.any_eq_true, decide_eq_true_eq]
  constructor
  · rintro ⟨-, h, hh, htest⟩
    exact ⟨h, hh, htest⟩
  · rintro ⟨h, hh, htest⟩
    exact ⟨⟨h, hh⟩, h, hh, htest⟩

end SseState

/-- What a step can do to the map, the semaphores and those who hold them. -/
inductive SseEffect (maxPerKey : Nat) (s s' : SseState) : Prop
  | idle (semaphores : s'.semaphores = s.semaphores) (available : s'.available = s.available)
      (next : s'.nextSemaphore = s.nextSemaphore) (holders : s'.holders = s.holders)
  | moves (t : Nat) (h : StreamHolder) (p : StreamPhase) (held : s.holders.lookup t = some h)
      (quiet : h.phase ≠ .live ∧ p ≠ .live) (kind : p.acquiring = true → h.phase.acquiring = true)
      (mapped : h.phase = .unlocked → p = .unlocked) (semaphores : s'.semaphores = s.semaphores)
      (available : s'.available = s.available) (next : s'.nextSemaphore = s.nextSemaphore)
      (holders : s'.holders = s.holders.insert t { h with phase := p })
  | acquires (t : Nat) (h : StreamHolder) (held : s.holders.lookup t = some h) (phase : h.phase = .cloned)
      (free : 0 < s.available h.semaphore) (semaphores : s'.semaphores = s.semaphores)
      (available : s'.available = Function.update s.available h.semaphore (s.available h.semaphore - 1))
      (next : s'.nextSemaphore = s.nextSemaphore)
      (holders : s'.holders = s.holders.insert t { h with phase := .live })
  | releases (t : Nat) (h : StreamHolder) (held : s.holders.lookup t = some h) (phase : h.phase = .live)
      (semaphores : s'.semaphores = s.semaphores)
      (available : s'.available = Function.update s.available h.semaphore (s.available h.semaphore + 1))
      (next : s'.nextSemaphore = s.nextSemaphore)
      (holders : s'.holders = s.holders.insert t { h with phase := .returned })
  | retires (entry : String) (i : Nat) (found : s.semaphores.lookup entry = some i) (count : s.strongCount i ≤ 1)
      (semaphores : s'.semaphores = s.semaphores.erase entry) (available : s'.available = s.available)
      (next : s'.nextSemaphore = s.nextSemaphore) (holders : s'.holders = s.holders)
  | removes (t : Nat) (h : StreamHolder) (held : s.holders.lookup t = some h) (phase : h.phase = .taken)
      (count : s.strongCount h.semaphore ≤ 2) (semaphores : s'.semaphores = s.semaphores.erase h.key)
      (available : s'.available = s.available) (next : s'.nextSemaphore = s.nextSemaphore)
      (holders : s'.holders = s.holders.insert t { h with phase := .unlocked })
  | enters (t : Nat) (key : String) (i : Nat) (owner : s.entering = some (t, key)) (unlocks : s'.entering = none)
      (found : s.semaphores.lookup key = some i) (semaphores : s'.semaphores = s.semaphores)
      (available : s'.available = s.available) (next : s'.nextSemaphore = s.nextSemaphore)
      (holders : s'.holders = s.holders.insert t ⟨key, i, .entered⟩)
  | creates (t : Nat) (key : String) (owner : s.entering = some (t, key)) (unlocks : s'.entering = none)
      (missing : s.semaphores.lookup key = none) (semaphores : s'.semaphores = s.semaphores.insert key s.nextSemaphore)
      (available : s'.available = Function.update s.available s.nextSemaphore maxPerKey)
      (next : s'.nextSemaphore = s.nextSemaphore + 1)
      (holders : s'.holders = s.holders.insert t ⟨key, s.nextSemaphore, .entered⟩)
  | leaves (t : Nat) (h : StreamHolder) (held : s.holders.lookup t = some h) (quiet : h.phase ≠ .live)
      (semaphores : s'.semaphores = s.semaphores) (available : s'.available = s.available)
      (next : s'.nextSemaphore = s.nextSemaphore) (holders : s'.holders = s.holders.erase t)

namespace SseState

variable {maxPerKey : Nat} {s s' : SseState}

theorem advance_effect (h : s.advance maxPerKey = some s') : SseEffect maxPerKey s s' := by
  unfold advance at h
  split at h
  next => simp at h
  next t key entry todo hlock =>
    split at h <;> cases Option.some.inj h <;> exact .idle rfl rfl rfl rfl
  next t key entry busy todo hlock =>
    split at h
    next i hi =>
      split at h
      next => cases Option.some.inj h; exact .idle rfl rfl rfl rfl
      next hcount =>
        cases Option.some.inj h
        exact .retires entry i hi (not_lt.mp (not_or.mp hcount).2) rfl rfl rfl rfl
    next => cases Option.some.inj h; exact .idle rfl rfl rfl rfl
  next t key hlock =>
    have howner : s.entering = some (t, key) := by rw [entering, hlock]
    split at h
    next i hi =>
      cases Option.some.inj h
      exact .enters t key i howner rfl hi rfl rfl rfl rfl
    next hnone =>
      cases Option.some.inj h
      exact .creates t key howner rfl hnone rfl rfl rfl rfl
  next t idle hlock =>
    split at h
    next holder hholder =>
      obtain ⟨hheld, hphase⟩ := holderAt_eq_some.mp hholder
      split at h
      next hcount =>
        cases Option.some.inj h
        exact .removes t holder hheld hphase hcount.2 rfl rfl rfl rfl
      next =>
        cases Option.some.inj h
        exact .moves t holder .unlocked hheld (by simp [hphase]) nofun (fun _ => rfl) rfl rfl rfl rfl
    next => simp at h

theorem step_effect {a : SseAction} (h : s.step maxPerKey a = some s') : SseEffect maxPerKey s s' := by
  cases a with
  | lockAcquire t key order =>
    simp only [step, Option.ite_none_right_eq_some, Option.some.injEq] at h
    obtain ⟨-, rfl⟩ := h
    exact .idle rfl rfl rfl rfl
  | advance => exact advance_effect h
  | clone t =>
    obtain ⟨holder, hholder, rfl⟩ := Option.map_eq_some_iff.mp h
    obtain ⟨hheld, hphase⟩ := holderAt_eq_some.mp hholder
    exact .moves t holder .cloned hheld (by simp [hphase]) (by simp [hphase, StreamPhase.acquiring]) (by simp [hphase])
      rfl rfl rfl rfl
  | tryAcquireOwned t =>
    obtain ⟨holder, hholder, heq⟩ := Option.map_eq_some_iff.mp h
    obtain ⟨hheld, hphase⟩ := holderAt_eq_some.mp hholder
    split at heq
    next hfree => subst heq; exact .acquires t holder hheld hphase hfree rfl rfl rfl rfl
    next =>
      subst heq
      exact .moves t holder .refused hheld (by simp [hphase]) (by simp [hphase, StreamPhase.acquiring])
        (by simp [hphase]) rfl rfl rfl rfl
  | giveUp t =>
    obtain ⟨holder, hholder, rfl⟩ := Option.map_eq_some_iff.mp h
    obtain ⟨hheld, hphase⟩ := holderAt_eq_some.mp hholder
    exact .leaves t holder hheld (by simp [hphase]) rfl rfl rfl rfl
  | release t =>
    obtain ⟨holder, hholder, rfl⟩ := Option.map_eq_some_iff.mp h
    obtain ⟨hheld, hphase⟩ := holderAt_eq_some.mp hholder
    exact .releases t holder hheld hphase rfl rfl rfl rfl
  | dropPermit t =>
    obtain ⟨holder, hholder, rfl⟩ := Option.map_eq_some_iff.mp h
    obtain ⟨hheld, hphase⟩ := holderAt_eq_some.mp hholder
    exact .moves t holder .taken hheld (by simp [hphase]) (by simp [StreamPhase.acquiring]) (by simp [hphase])
      rfl rfl rfl rfl
  | lockDrop t =>
    simp only [step, Option.ite_none_right_eq_some, Option.map_eq_some_iff] at h
    obtain ⟨-, holder, -, rfl⟩ := h
    exact .idle rfl rfl rfl rfl
  | finish t =>
    obtain ⟨holder, hholder, rfl⟩ := Option.map_eq_some_iff.mp h
    obtain ⟨hheld, hphase⟩ := holderAt_eq_some.mp hholder
    exact .leaves t holder hheld (by simp [hphase]) rfl rfl rfl rfl

/-- A call owns the lock until it leaves the map. -/
theorem advance_entering (h : s.advance maxPerKey = some s') {x : Nat × String} (howner : s'.entering = some x) :
    s.entering = some x := by
  unfold advance at h
  split at h
  next => simp at h
  next t key entry todo hlock =>
    have hown : s.entering = some (t, key) := by rw [entering, hlock]
    split at h <;> cases Option.some.inj h <;> exact hown.trans howner
  next t key entry busy todo hlock =>
    have hown : s.entering = some (t, key) := by rw [entering, hlock]
    split at h
    next => split at h <;> cases Option.some.inj h <;> exact hown.trans howner
    next => cases Option.some.inj h; exact hown.trans howner
  next => split at h <;> cases Option.some.inj h <;> simp [entering] at howner
  next =>
    split at h
    next => split at h <;> cases Option.some.inj h <;> simp [entering] at howner
    next => simp at h

theorem step_entering {a : SseAction} (h : s.step maxPerKey a = some s') {t : Nat} {key : String}
    (howner : s'.entering = some (t, key)) : s.entering = some (t, key) ∨
      (∃ order, a = .lockAcquire t key order) ∧ s.holders.lookup t = none ∧ s'.holders = s.holders := by
  cases a with
  | lockAcquire t' key' order =>
    simp only [step, Option.ite_none_right_eq_some, Option.some.injEq] at h
    obtain ⟨⟨-, hnew, -⟩, rfl⟩ := h
    cases Option.some.inj howner
    exact Or.inr ⟨⟨order, rfl⟩, hnew, rfl⟩
  | advance => exact Or.inl (advance_entering h howner)
  | tryAcquireOwned t' =>
    obtain ⟨holder, -, heq⟩ := Option.map_eq_some_iff.mp h
    split at heq <;> subst heq <;> exact Or.inl howner
  | lockDrop t' =>
    simp only [step, Option.ite_none_right_eq_some, Option.map_eq_some_iff] at h
    obtain ⟨-, holder, -, rfl⟩ := h
    simp [entering] at howner
  | clone t' | giveUp t' | release t' | dropPermit t' | finish t' =>
    obtain ⟨holder, -, rfl⟩ := Option.map_eq_some_iff.mp h
    exact Or.inl howner

end SseState

end DarkPool
